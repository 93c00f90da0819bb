import Xllm.FunctionCall.PartialJson
import Xllm.Lib.Contract
import Xllm.Lib.JsonGrammar

/-!
# Reading complete pieces of a text

The scanning loops stop where the grammar says: behind blanks, behind the closing quote of a
string, behind a numeral. Everything is said for a text whose length is a 32-bit number.
-/

namespace Xllm.PartialJson

open Contract List

variable {text w t v rest : List Char} {i j n : Nat} {c : Char} {allowed : TypeOptions}
  {topLevel : Bool}

/-- The length of the text can be converted. -/
def Short (text : List Char) : Prop := text.length < 2147483648

@[simp] theorem toInt32_of_lt (h : n < 2147483648) : toInt32 n = n :=
  Int.bmod_eq_of_le_mul_two (by omega) (by omega)

@[simp] theorem Short.castLength (h : Short text) : castLength text = text.length :=
  toInt32_of_lt h

theorem Short.drop (h : Short text) (j : Nat) : Short (text.drop j) := by
  have hlt : text.length < 2147483648 := h
  rw [Short, length_drop]
  omega

theorem getElem?_of_drop (h : text.drop j = c :: rest) : text[j]? = some c := by
  have hget : (text.drop j)[0]? = some c := by rw [h]; rfl
  rwa [getElem?_drop] at hget

theorem length_of_drop (h : text.drop j = c :: rest) : j < text.length := by
  by_contra hge
  rw [drop_eq_nil_of_le (Nat.le_of_not_lt hge)] at h
  cases h

theorem drop_add_of_drop (h : text.drop j = w ++ t) : text.drop (j + w.length) = t := by
  rw [← drop_drop, h, drop_left]

@[simp] theorem isSpace_of_blank (h : JsonText.blank c = true) : isSpace c = true := by
  simp only [JsonText.blank, mem_cons, not_mem_nil, or_false, decide_eq_true_eq] at h
  obtain rfl | rfl | rfl | rfl := h <;> rfl

/-- The text does not begin with a space. -/
def NoSpace (t : List Char) : Prop := ∀ c, t.head? = some c → isSpace c = false

theorem skipLoop_append {length : Int} (hw : ∀ c ∈ w, isSpace c = true) (ht : NoSpace t)
    (hlength : (i + w.length : Int) ≤ length) :
    skipLoop length (w ++ t) i = i + w.length := by
  induction w generalizing i with
  | nil =>
      cases t with
      | nil => rfl
      | cons c t =>
          have hc := ht c rfl
          simp [skipLoop, hc]
  | cons c w ih =>
      have hc := hw c mem_cons_self
      simp only [length_cons] at hlength
      simp only [cons_append, skipLoop, hc, and_true]
      rw [if_pos (by omega), ih (fun c hc => hw c (mem_cons_of_mem _ hc))
        (by push_cast at hlength ⊢; omega), length_cons]
      omega

theorem skipBlank_of_drop (hshort : Short text) (h : text.drop j = w ++ t)
    (hw : ∀ c ∈ w, isSpace c = true) (ht : NoSpace t) (hne : t ≠ []) :
    skipBlank text j = j + w.length := by
  cases t with
  | nil => exact absurd rfl hne
  | cons c t =>
      have hlt := length_of_drop (drop_add_of_drop h)
      rw [skipBlank, h, hshort.castLength]
      exact skipLoop_append hw ht (by omega)

theorem atSymbol_of_drop (hshort : Short text) (h : text.drop j = c :: rest)
    (atEnd : Completing) (next : Char → Completing) :
    atSymbol text j atEnd next = next c := by
  have hlt := length_of_drop h
  rw [atSymbol, hshort.castLength, if_neg (by omega), getElem?_of_drop h]

theorem scanString_text {length : Int} (h : JsonText.StringText t)
    (hlength : (i + t.length : Int) < length) :
    scanString length (t ++ '"' :: rest) i false = (i + t.length, false) := by
  induction h generalizing i with
  | nil => simp [scanString]
  | @plain c t printable quote backslash _ ih =>
      simp only [length_cons] at hlength
      simp only [cons_append, scanString, quote, backslash, ne_eq, not_false_eq_true, true_or,
        and_true, if_false]
      rw [if_pos (by omega), ih (by push_cast at hlength ⊢; omega), length_cons,
        Nat.add_assoc, Nat.add_comm 1]
  | @escape c t mark _ ih =>
      simp only [length_cons] at hlength
      simp only [cons_append, scanString]
      rw [if_pos ⟨by omega, .inl (by decide)⟩, if_pos ⟨by push_cast at hlength ⊢; omega, .inr rfl⟩]
      simp only [if_true, Bool.not_false, Bool.not_true, ite_self]
      rw [ih (by push_cast at hlength ⊢; omega), length_cons, length_cons]
      simp only [Prod.mk.injEq, and_true]
      omega
  | @unicode a b c d t digits _ ih =>
      have hplain : ∀ x, (JsonText.hexDigit x).isSome = true → x ≠ '"' ∧ x ≠ '\\' := by
        intro x hx
        constructor
        · intro heq
          rw [heq] at hx
          cases hx
        · intro heq
          rw [heq] at hx
          cases hx
      have ha := hplain a (digits a (by simp))
      have hb := hplain b (digits b (by simp))
      have hc := hplain c (digits c (by simp))
      have hd := hplain d (digits d (by simp))
      simp only [length_cons] at hlength
      have hlast := ih (i := i + 1 + 1 + 1 + 1 + 1 + 1) (by push_cast; omega)
      have h0 : (i : Int) < length := by omega
      have h1 : ((i + 1 : Nat) : Int) < length := by push_cast; omega
      have h2 : ((i + 1 + 1 : Nat) : Int) < length := by push_cast; omega
      have h3 : ((i + 1 + 1 + 1 : Nat) : Int) < length := by push_cast; omega
      have h4 : ((i + 1 + 1 + 1 + 1 : Nat) : Int) < length := by push_cast; omega
      have h5 : ((i + 1 + 1 + 1 + 1 + 1 : Nat) : Int) < length := by push_cast; omega
      simp only [cons_append, scanString, h0, h1, h2, h3, h4, h5, ha, hb, hc, hd, ne_eq,
        not_false_eq_true, true_or, if_true, if_false,
        Char.reduceEq, hlast, length_cons, Prod.mk.injEq, and_true]
      omega

/-- A complete string is taken whole. -/
theorem completeString_text (h : JsonText.StringText t)
    (hshort : Short ('"' :: (t ++ '"' :: rest))) :
    completeString ('"' :: (t ++ '"' :: rest)) allowed = .ok ⟨t.length + 2, []⟩ := by
  have hlength : ('"' :: (t ++ '"' :: rest)).length = t.length + rest.length + 2 := by
    simp
    omega
  have hscan : scanString (castLength ('"' :: (t ++ '"' :: rest))) (t ++ '"' :: rest) 1 false =
      (1 + t.length, false) := by
    apply scanString_text h
    rw [hshort.castLength]
    omega
  rw [hshort.castLength, hlength] at hscan
  simp only [completeString, head?_cons, ne_eq, not_true_eq_false, if_false, drop_succ_cons,
    drop_zero, hscan, hshort.castLength, hlength]
  rw [if_pos (by push_cast; omega)]
  congr 2
  omega

/-- What may stand behind a value: at the top level also nothing. -/
structure Follows (rest : List Char) (topLevel : Bool) : Prop where
  atEnd : rest = [] → topLevel = true
  head : ∀ c, rest.head? = some c → (isDigit c || isMark c) = false

theorem scanNumber_append {length : Int} (ht : ∀ c ∈ t, JsonText.numeralChar c = true)
    (hrest : Follows rest topLevel) (hlength : (i + t.length : Int) ≤ length) :
    scanNumber length (t ++ rest) i = i + t.length := by
  induction t generalizing i with
  | nil =>
      cases rest with
      | nil => rfl
      | cons c rest =>
          have hc := hrest.head c rfl
          simp [scanNumber, hc]
  | cons c t ih =>
      have hc : (isDigit c || isMark c) = true := ht c mem_cons_self
      simp only [length_cons] at hlength
      simp only [cons_append, scanNumber, hc, and_true]
      rw [if_pos (by omega), ih (fun c hc => ht c (mem_cons_of_mem _ hc))
        (by push_cast at hlength ⊢; omega), length_cons]
      omega

@[simp] theorem not_isMark_of_isDigit (h : JsonText.isDigit c = true) : isMark c = false := by
  by_contra hmark
  simp only [isMark, mem_cons, not_mem_nil, or_false, decide_eq_true_eq,
    Bool.not_eq_false] at hmark
  obtain rfl | rfl | rfl | rfl | rfl := hmark <;> exact absurd h (by decide)

/-- A numeral is taken whole. -/
theorem completeNumber_text (h : JsonText.Numeral t) (hshort : Short (t ++ rest))
    (hrest : Follows rest topLevel) :
    completeNumber (t ++ rest) allowed topLevel = .ok ⟨t.length, []⟩ := by
  obtain ⟨front, last, hlast, hdigit⟩ := h.last
  have hlength : t.length = front.length + 1 := by
    rw [hlast, length_append]
    rfl
  have hscan : scanNumber (castLength (t ++ rest)) ((t ++ rest).drop 1) 1 = t.length := by
    cases t with
    | nil => cases hlength
    | cons c r =>
        have hr : ∀ x ∈ r, JsonText.numeralChar x = true :=
          fun x hx => h.chars x (mem_cons_of_mem _ hx)
        have hfit : ((1 : Nat) + r.length : Int) ≤ castLength (c :: r ++ rest) := by
          rw [hshort.castLength]
          simp
          omega
        have hstop := scanNumber_append hr hrest hfit
        rw [length_cons, Nat.add_comm]
        exact hstop
  have hget : (t ++ rest)[front.length]? = some last := by
    rw [hlast]
    simp
  have htrim : trimNumber (t ++ rest) t.length false = .ok (t.length, false) := by
    rw [hlength]
    simp [trimNumber, hget, not_isMark_of_isDigit hdigit]
  have hmore : ¬ ((t.length : Int) = castLength (t ++ rest) ∧ ¬ topLevel = true) := by
    rw [hshort.castLength, length_append]
    intro hend
    have hnil : rest = [] := eq_nil_of_length_eq_zero (by omega)
    exact hend.2 (hrest.atEnd hnil)
  rw [completeNumber, hscan, htrim, ok_bind]
  simp only [Bool.false_eq_true, false_or, if_neg hmore]

theorem substr_append (hshort : Short (t ++ rest)) {n : Nat} (hn : n ≤ t.length) :
    substr (t ++ rest) (min n (castLength (t ++ rest))) = t.take n := by
  rw [hshort.castLength, length_append, substr, if_neg (by omega)]
  have hmin : (min (n : Int) ((t.length + rest.length : Nat) : Int)).toNat = n := by omega
  rw [hmin, take_append_of_le_length hn]

theorem completeWord_here {word message : String} {type : Nat} {otherwise : Completing}
    (hshort : Short (word.toList ++ rest)) :
    completeWord (word.toList ++ rest) allowed word type message otherwise =
      .ok ⟨word.toList.length, []⟩ := by
  rw [completeWord]
  exact if_pos ((substr_append hshort (Nat.le_refl _)).trans take_length)

theorem completeWord_other {word message : String} {type : Nat} {otherwise : Completing}
    (hshort : Short (t ++ rest)) (hlength : word.toList.length ≤ t.length)
    (hother : t.take word.toList.length ≠ word.toList) :
    completeWord (t ++ rest) allowed word type message otherwise = otherwise := by
  rw [completeWord, substr_append hshort hlength, if_neg hother, if_neg]
  rw [length_append]
  omega

@[simp] theorem completeWords_text (w : JsonText.Word) (hshort : Short (w.text ++ rest)) :
    completeWords (w.text ++ rest) allowed = .ok ⟨w.text.length, []⟩ := by
  cases w with
  | null => exact completeWord_here hshort
  | true =>
      rw [completeWords, completeWord_other hshort (by decide) (by decide)]
      exact completeWord_here hshort
  | false =>
      rw [completeWords, completeWord_other hshort (by decide) (by decide),
        completeWord_other hshort (by decide) (by decide)]
      exact completeWord_here hshort

end Xllm.PartialJson
