import Xllm.Lib.JsonText

/-!
# The grammar of JSON texts

The grammar of RFC 8259 as an inductive predicate, with one constructor for each production. A
symbol of a text stands for a byte, and a plain symbol of a string is any one that is neither a
control character nor a quote nor a backslash.
-/

namespace JsonText

def Digits (t : List Char) : Prop := t ≠ [] ∧ ∀ c ∈ t, isDigit c = true

/-- Zero, or digits of which the first one is not zero. -/
def IntPart (t : List Char) : Prop := t = ['0'] ∨ (Digits t ∧ t.head? ≠ some '0')

def FracPart (t : List Char) : Prop := t = [] ∨ ∃ d, Digits d ∧ t = '.' :: d

def ExpPart (t : List Char) : Prop :=
  t = [] ∨ ∃ e sign d, (e = 'e' ∨ e = 'E') ∧ (sign = [] ∨ sign = ['+'] ∨ sign = ['-']) ∧ Digits d ∧
    t = e :: (sign ++ d)

def Numeral (t : List Char) : Prop :=
  ∃ sign int frac exp, (sign = [] ∨ sign = ['-']) ∧ IntPart int ∧ FracPart frac ∧ ExpPart exp ∧
    t = sign ++ (int ++ (frac ++ exp))

inductive StringText : List Char → Prop
  | nil : StringText []
  | plain {c : Char} {t : List Char} (printable : 0x20 ≤ c.toNat) (quote : c ≠ '"')
      (backslash : c ≠ '\\') (rest : StringText t) : StringText (c :: t)
  | escape {c : Char} {t : List Char}
      (mark : c ∈ ['"', '\\', '/', 'b', 'f', 'n', 'r', 't']) (rest : StringText t) :
      StringText ('\\' :: c :: t)
  | unicode {a b c d : Char} {t : List Char}
      (digits : ∀ x ∈ [a, b, c, d], (hexDigit x).isSome = true) (rest : StringText t) :
      StringText ('\\' :: 'u' :: a :: b :: c :: d :: t)

def Blank (t : List Char) : Prop := ∀ c ∈ t, blank c = true

/-- What a text is: a value, the inside of an array with elements, or of an object with members. -/
inductive Kind
  | value
  | elements
  | members

inductive Text : Kind → List Char → Prop
  | word (w : Word) : Text .value w.text
  | number {t : List Char} (numeral : Numeral t) : Text .value t
  | string {t : List Char} (inside : StringText t) : Text .value ('"' :: (t ++ ['"']))
  | emptyArray {w : List Char} (blanks : Blank w) : Text .value ('[' :: (w ++ [']']))
  | array {t : List Char} (inside : Text .elements t) : Text .value ('[' :: (t ++ [']']))
  | emptyObject {w : List Char} (blanks : Blank w) : Text .value ('\x7b' :: (w ++ ['\x7d']))
  | object {t : List Char} (inside : Text .members t) :
      Text .value ('\x7b' :: (t ++ ['\x7d']))
  | lastElement {w v w' : List Char} (before : Blank w) (value : Text .value v)
      (after : Blank w') : Text .elements (w ++ (v ++ w'))
  | element {w v w' t : List Char} (before : Blank w) (value : Text .value v)
      (after : Blank w') (rest : Text .elements t) :
      Text .elements (w ++ (v ++ (w' ++ ',' :: t)))
  | lastMember {w k w₁ w₂ v w' : List Char} (before : Blank w) (key : StringText k)
      (afterKey : Blank w₁) (beforeValue : Blank w₂) (value : Text .value v) (after : Blank w') :
      Text .members (w ++ ('"' :: (k ++ '"' :: (w₁ ++ ':' :: (w₂ ++ (v ++ w'))))))
  | member {w k w₁ w₂ v w' t : List Char} (before : Blank w) (key : StringText k)
      (afterKey : Blank w₁) (beforeValue : Blank w₂) (value : Text .value v) (after : Blank w')
      (rest : Text .members t) :
      Text .members (w ++ ('"' :: (k ++ '"' :: (w₁ ++ ':' :: (w₂ ++ (v ++ (w' ++ ',' :: t)))))))

def numeralChar (c : Char) : Bool := isDigit c || c ∈ ['.', '+', '-', 'e', 'E']

variable {t : List Char}

theorem Digits.last (h : Digits t) : ∃ i c, t = i ++ [c] ∧ isDigit c = true := by
  refine ⟨t.dropLast, t.getLast h.1, (List.dropLast_append_getLast h.1).symm, ?_⟩
  exact h.2 _ (List.getLast_mem h.1)

theorem Digits.numeralChar (h : Digits t) : ∀ c ∈ t, numeralChar c = true := by
  intro c hc
  simp [JsonText.numeralChar, h.2 c hc]

theorem IntPart.digits (h : IntPart t) : Digits t := by
  cases h with
  | inl h => exact h ▸ ⟨List.cons_ne_nil _ _, by simp; decide⟩
  | inr h => exact h.1

theorem FracPart.last (h : FracPart t) :
    t = [] ∨ ∃ i c, t = i ++ [c] ∧ isDigit c = true := by
  cases h with
  | inl h => exact .inl h
  | inr h =>
      obtain ⟨d, hd, rfl⟩ := h
      obtain ⟨i, c, rfl, hc⟩ := hd.last
      exact .inr ⟨'.' :: i, c, rfl, hc⟩

theorem ExpPart.last (h : ExpPart t) :
    t = [] ∨ ∃ i c, t = i ++ [c] ∧ isDigit c = true := by
  cases h with
  | inl h => exact .inl h
  | inr h =>
      obtain ⟨e, sign, d, -, -, hd, rfl⟩ := h
      obtain ⟨i, c, rfl, hc⟩ := hd.last
      exact .inr ⟨e :: (sign ++ i), c, by simp, hc⟩

/-- A number ends in a digit. -/
theorem Numeral.last (h : Numeral t) :
    ∃ i c, t = i ++ [c] ∧ isDigit c = true := by
  obtain ⟨sign, int, frac, exp, -, hint, hfrac, hexp, rfl⟩ := h
  cases hexp.last with
  | inr h =>
      obtain ⟨i, c, rfl, hc⟩ := h
      exact ⟨sign ++ (int ++ (frac ++ i)), c, by simp, hc⟩
  | inl h =>
      subst h
      cases hfrac.last with
      | inr h =>
          obtain ⟨i, c, rfl, hc⟩ := h
          exact ⟨sign ++ (int ++ i), c, by simp, hc⟩
      | inl h =>
          subst h
          obtain ⟨i, c, rfl, hc⟩ := hint.digits.last
          exact ⟨sign ++ i, c, by simp, hc⟩

theorem Numeral.chars (h : Numeral t) : ∀ c ∈ t, numeralChar c = true := by
  obtain ⟨sign, int, frac, exp, hsign, hint, hfrac, hexp, rfl⟩ := h
  intro c hc
  simp only [List.mem_append] at hc
  obtain hc | hc | hc | hc := hc
  · cases hsign with
    | inl h => rw [h] at hc; cases hc
    | inr h =>
        rw [h, List.mem_singleton] at hc
        rw [hc]
        rfl
  · exact hint.digits.numeralChar c hc
  · cases hfrac with
    | inl h => rw [h] at hc; cases hc
    | inr h =>
        obtain ⟨d, hd, rfl⟩ := h
        cases List.mem_cons.mp hc with
        | inl h => rw [h]; rfl
        | inr h => exact hd.numeralChar c h
  · cases hexp with
    | inl h => rw [h] at hc; cases hc
    | inr h =>
        obtain ⟨e, s, d, he, hs, hd, rfl⟩ := h
        simp only [List.mem_cons, List.mem_append] at hc
        obtain hc | hc | hc := hc
        · rw [hc]
          cases he with
          | inl h => rw [h]; rfl
          | inr h => rw [h]; rfl
        · obtain h | h | h := hs
          · rw [h] at hc; cases hc
          · rw [h, List.mem_singleton] at hc
            rw [hc]; rfl
          · rw [h, List.mem_singleton] at hc
            rw [hc]; rfl
        · exact hd.numeralChar c hc

theorem Numeral.first (h : Numeral t) :
    ∃ c r, isDigit c = true ∧ (t = c :: r ∨ t = '-' :: c :: r) := by
  obtain ⟨sign, int, frac, exp, hsign, hint, -, -, rfl⟩ := h
  cases int with
  | nil => exact absurd rfl hint.digits.1
  | cons c r =>
      refine ⟨c, r ++ (frac ++ exp), hint.digits.2 c List.mem_cons_self, ?_⟩
      cases hsign with
      | inl h => exact .inl (by rw [h]; rfl)
      | inr h => exact .inr (by rw [h]; rfl)

end JsonText
