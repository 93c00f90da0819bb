import Xllm.FunctionCall.PartialJsonBounds

/-!
# Complete texts are fixed points

A complete value is kept as it is: every function returns exactly the end of its value and puts
nothing behind it. The loops over arrays and objects are followed by induction on the grammar, for
any way to complete their items that keeps values; so it does not matter what the handlers would
do with the exceptions of an item.
-/

namespace Xllm.PartialJson

open Contract JsonText List

variable {item : List Char → Completing} {text w w' k t v rest : List Char} {i j n n' m limit : Nat}
    {c : Char} {allowed : TypeOptions}
  {topLevel : Bool}

@[simp] theorem isSpace_of_isDigit (h : JsonText.isDigit c = true) : isSpace c = false := by
  by_contra hspace
  simp only [isSpace, mem_cons, not_mem_nil, or_false, decide_eq_true_eq,
    Bool.not_eq_false] at hspace
  obtain rfl | rfl | rfl | rfl | rfl | rfl := hspace <;> exact absurd h (by decide)

/-- The first symbol of a value. -/
structure Begins (c : Char) : Prop where
  space : isSpace c = false
  bracket : c ≠ ']'
  brace : c ≠ '\x7d'

theorem begins_of_isDigit (h : JsonText.isDigit c = true) : Begins c where
  space := isSpace_of_isDigit h
  bracket := by
    intro heq
    rw [heq] at h
    cases h
  brace := by
    intro heq
    rw [heq] at h
    cases h

theorem value_begins (h : Text .value v) : ∃ c r, v = c :: r ∧ Begins c := by
  cases h with
  | word w =>
      cases w with
      | null => exact ⟨'n', _, rfl, by decide, by decide, by decide⟩
      | true => exact ⟨'t', _, rfl, by decide, by decide, by decide⟩
      | false => exact ⟨'f', _, rfl, by decide, by decide, by decide⟩
  | number numeral =>
      obtain ⟨c, r, hdigit, hcases⟩ := numeral.first
      cases hcases with
      | inl h => exact ⟨c, r, h, begins_of_isDigit hdigit⟩
      | inr h => exact ⟨'-', c :: r, h, by decide, by decide, by decide⟩
  | string inside => exact ⟨'"', _, rfl, by decide, by decide, by decide⟩
  | emptyArray blanks => exact ⟨'[', _, rfl, by decide, by decide, by decide⟩
  | array inside => exact ⟨'[', _, rfl, by decide, by decide, by decide⟩
  | emptyObject blanks => exact ⟨'\x7b', _, rfl, by decide, by decide, by decide⟩
  | object inside => exact ⟨'\x7b', _, rfl, by decide, by decide, by decide⟩

theorem follows_blank (hw : Blank w) (hc : (isDigit c || isMark c) = false) :
    Follows (w ++ c :: rest) topLevel where
  atEnd := by
    intro hnil
    cases (List.append_eq_nil_iff.mp hnil).2
  head := by
    intro x hx
    cases w with
    | nil =>
        cases hx
        exact hc
    | cons b w =>
        cases hx
        have hblank := hw x mem_cons_self
        simp only [JsonText.blank, mem_cons, not_mem_nil, or_false,
          decide_eq_true_eq] at hblank
        obtain rfl | rfl | rfl | rfl := hblank <;> rfl

theorem noSpace_cons (h : isSpace c = false) : NoSpace (c :: rest) := by
  intro x hx
  cases hx
  exact h

theorem skipBlank_to (hshort : Short text) (h : text.drop j = w ++ c :: rest) (hw : Blank w)
    (hc : isSpace c = false) :
    skipBlank text j = j + w.length ∧ text.drop (j + w.length) = c :: rest := by
  refine ⟨?_, drop_add_of_drop h⟩
  exact skipBlank_of_drop hshort h (fun x hx => isSpace_of_blank (hw x hx)) (noSpace_cons hc)
    (cons_ne_nil _ _)

/-- Values are kept as they are, whatever follows them, in texts shorter than `limit`. -/
def Keeps (item : List Char → Completing) (topLevel : Bool) (limit : Nat) : Prop :=
  ∀ v rest, Text .value v → Follows rest topLevel → Short (v ++ rest) →
    (v ++ rest).length < limit → item (v ++ rest) = .ok ⟨v.length, []⟩

theorem Keeps.mono (h : Keeps item topLevel limit) (hle : n ≤ limit) : Keeps item topLevel n := by
  intro v rest hvalue hrest hshort hlt
  exact h v rest hvalue hrest hshort (Nat.lt_of_lt_of_le hlt hle)

/-- A value behind blanks is kept, and the mark behind it is found. -/
structure ItemAt (item : List Char → Completing) (text : List Char) (j n n' m : Nat)
    (c : Char) (rest : List Char) : Prop where
  before : ¬ castLength text ≤ j
  skip : skipBlank text j = j + n
  symbol : ∃ b r, Begins b ∧ text.drop (j + n) = b :: r
  item : item (text.drop (j + n)) = .ok ⟨m, []⟩
  skipAfter : skipBlank text (j + n + m) = j + n + m + n'
  mark : text.drop (j + n + m + n') = c :: rest

theorem itemAt (hkeeps : Keeps item false text.length) (hshort : Short text) (hw : Blank w)
    (hw' : Blank w') (hvalue : Text .value v) (hmark : (isDigit c || isMark c) = false)
    (hspace : isSpace c = false) (hdrop : text.drop j = w ++ (v ++ (w' ++ c :: rest)))
    (hpos : 0 < j) : ItemAt item text j w.length w'.length v.length c rest := by
  obtain ⟨b, r, hv, hbegins⟩ := value_begins hvalue
  have hvb : v ++ (w' ++ c :: rest) = b :: (r ++ (w' ++ c :: rest)) := by
    rw [hv]
    rfl
  have hthere : text.drop (j + w.length) = v ++ (w' ++ c :: rest) := drop_add_of_drop hdrop
  rw [hvb] at hdrop
  obtain ⟨hskip, hsymbol⟩ := skipBlank_to hshort hdrop hw hbegins.space
  have hlt := length_of_drop hsymbol
  obtain ⟨hskip', hsymbol'⟩ := skipBlank_to hshort (drop_add_of_drop hthere) hw' hspace
  refine ⟨?_, hskip, ⟨b, _, hbegins, hsymbol⟩, ?_, hskip', hsymbol'⟩
  · rw [hshort.castLength]
    omega
  · rw [hthere]
    apply hkeeps v _ hvalue (follows_blank hw' hmark)
    · rw [← hthere]
      exact hshort.drop _
    · rw [← hthere, length_drop]
      omega

theorem arrayRound_item {again : Nat → Nat → Completing} (hshort : Short text)
    (h : ItemAt item text j n n' m c rest) (hc : c = ',' ∨ c = ']') :
    arrayRound item again text allowed i j =
      if c = ',' then again (j + n + m) (j + n + m + n' + 1)
      else .ok ⟨j + n + m + n' + 1, []⟩ := by
  obtain ⟨b, r, hbegins, hsymbol⟩ := h.symbol
  rw [arrayRound, if_neg h.before]
  rw [h.skip, atSymbol_of_drop hshort hsymbol, if_neg hbegins.bracket, h.item]
  dsimp only
  rw [if_neg (by simp), Int.toNat_natCast, h.skipAfter, atSymbol_of_drop hshort h.mark]
  cases hc with
  | inl h => rw [if_pos h, if_pos h]
  | inr h =>
      have hcomma : c ≠ ',' := by
        rw [h]
        decide
      rw [if_neg hcomma, if_neg hcomma, if_pos h]
      rfl

/-- The loop of an array over all the elements that are left. -/
def ArrayKept (item : List Char → Completing) (allowed : TypeOptions) (text t : List Char) :
    Prop :=
  ∀ i j n rest, text.drop j = t ++ ']' :: rest → 0 < j → text.length - j < n →
    rounds (fun again i j => arrayRound item again text allowed i j) n i j =
      .ok ⟨j + t.length + 1, []⟩

theorem arrayKept_last (hkeeps : Keeps item false text.length) (hshort : Short text)
    (hw : Blank w) (hvalue : Text .value v) (hw' : Blank w') :
    ArrayKept item allowed text (w ++ (v ++ w')) := by
  intro i j n rest hdrop hpos hn
  simp only [append_assoc] at hdrop
  have hitem := itemAt hkeeps hshort hw hw' hvalue rfl rfl hdrop hpos
  cases n with
  | zero => exact absurd hn (Nat.not_lt_zero _)
  | succ n =>
      rw [rounds, arrayRound_item hshort hitem (.inr rfl), if_neg (by decide)]
      simp only [length_append]
      congr 2
      omega

theorem arrayKept_more (hkeeps : Keeps item false text.length) (hshort : Short text)
    (hw : Blank w) (hvalue : Text .value v) (hw' : Blank w')
    (hrest : ArrayKept item allowed text t) :
    ArrayKept item allowed text (w ++ (v ++ (w' ++ ',' :: t))) := by
  intro i j n rest hdrop hpos hn
  simp only [append_assoc] at hdrop
  have hitem := itemAt hkeeps hshort hw hw' hvalue rfl rfl hdrop hpos
  cases n with
  | zero => exact absurd hn (Nat.not_lt_zero _)
  | succ n =>
      have hlt := length_of_drop hitem.mark
      have hcomma : text.drop (j + w.length + v.length + w'.length + 1) = t ++ ']' :: rest :=
        drop_add_of_drop (w := [',']) hitem.mark
      rw [rounds, arrayRound_item hshort hitem (.inl rfl), if_pos rfl,
        hrest _ _ n rest hcomma (by omega) (by omega)]
      simp only [length_append, length_cons]
      congr 2
      omega

/-- A key behind blanks is kept, and the colon behind it is found. -/
structure KeyAt (allowed : TypeOptions) (text : List Char) (j n m n' : Nat) (rest : List Char) :
    Prop where
  before : ¬ castLength text ≤ j
  skip : skipBlank text j = j + n
  symbol : ∃ r, text.drop (j + n) = '"' :: r
  key : completeString (text.drop (j + n)) allowed = .ok ⟨m, []⟩
  skipAfter : skipBlank text (j + n + m) = j + n + m + n'
  colon : text.drop (j + n + m + n') = ':' :: rest

theorem keyAt (allowed : TypeOptions) (hshort : Short text) (hw : Blank w) (hkey : StringText k)
    (hw' : Blank w') (hdrop : text.drop j = w ++ ('"' :: (k ++ '"' :: (w' ++ ':' :: rest)))) :
    KeyAt allowed text j w.length (k.length + 2) w'.length rest := by
  obtain ⟨hskip, hsymbol⟩ := skipBlank_to hshort hdrop hw rfl
  have hlt := length_of_drop hsymbol
  have hquoted : text.drop (j + w.length) = ('"' :: (k ++ ['"'])) ++ (w' ++ ':' :: rest) := by
    rw [hsymbol]
    simp
  have hbehind := drop_add_of_drop hquoted
  simp only [length_cons, length_append] at hbehind
  obtain ⟨hskip', hsymbol'⟩ := skipBlank_to hshort hbehind hw' rfl
  refine ⟨?_, hskip, ⟨_, hsymbol⟩, ?_, hskip', hsymbol'⟩
  · rw [hshort.castLength]
    omega
  · rw [hsymbol]
    apply completeString_text hkey
    rw [← hsymbol]
    exact hshort.drop _

theorem objectRound_key {again : Nat → Nat → Completing} (hshort : Short text)
    (h : KeyAt allowed text j n m n' rest) :
    objectRound item again text allowed i j =
      objectValue item again text allowed i (skipBlank text (j + n + m + n' + 1)) := by
  obtain ⟨r, hsymbol⟩ := h.symbol
  rw [objectRound, if_neg h.before]
  rw [h.skip, atSymbol_of_drop hshort hsymbol, if_neg (by decide), h.key]
  dsimp only
  rw [if_neg (by simp), Int.toNat_natCast, h.skipAfter, atSymbol_of_drop hshort h.colon,
    if_neg (by simp)]

theorem objectValue_item {again : Nat → Nat → Completing} (hshort : Short text)
    (h : ItemAt item text j n n' m c rest) (hc : c = ',' ∨ c = '\x7d') :
    objectValue item again text allowed i (j + n) =
      if c = ',' then again (j + n + m) (j + n + m + n' + 1)
      else .ok ⟨j + n + m + n' + 1, []⟩ := by
  obtain ⟨b, r, hbegins, hsymbol⟩ := h.symbol
  have hlt := length_of_drop hsymbol
  rw [objectValue, hshort.castLength, if_neg (by omega), h.item]
  dsimp only
  rw [if_neg (by simp), Int.toNat_natCast, h.skipAfter, atSymbol_of_drop hshort h.mark]
  cases hc with
  | inl h => rw [if_pos h, if_pos h]
  | inr h =>
      have hcomma : c ≠ ',' := by
        rw [h]
        decide
      rw [if_neg hcomma, if_neg hcomma, if_pos h]
      rfl

/-- The loop of an object over all the members that are left. -/
def ObjectKept (item : List Char → Completing) (allowed : TypeOptions) (text t : List Char) :
    Prop :=
  ∀ i j n rest, text.drop j = t ++ '\x7d' :: rest → 0 < j → text.length - j < n →
    rounds (fun again i j => objectRound item again text allowed i j) n i j =
      .ok ⟨j + t.length + 1, []⟩

theorem objectRound_member (allowed : TypeOptions) (again : Nat → Nat → Completing) (i : Nat)
    {w₁ w₂ : List Char}
    (hkeeps : Keeps item false text.length) (hshort : Short text) (hw : Blank w)
    (hkey : StringText k) (hw₁ : Blank w₁) (hw₂ : Blank w₂) (hvalue : Text .value v)
    (hw' : Blank w') (hc : c = ',' ∨ c = '\x7d')
    (hdrop : text.drop j =
      w ++ ('"' :: (k ++ '"' :: (w₁ ++ ':' :: (w₂ ++ (v ++ (w' ++ c :: rest))))))) :
    ∃ i' j', objectRound item again text allowed i j =
        (if c = ',' then again i' (j' + 1) else .ok ⟨j' + 1, []⟩) ∧
      j' = j + (w ++ ('"' :: (k ++ '"' :: (w₁ ++ ':' :: (w₂ ++ (v ++ w')))))).length ∧
      text.drop j' = c :: rest := by
  have hkeyAt := keyAt allowed hshort hw hkey hw₁ hdrop
  have hcolon : text.drop (j + w.length + (k.length + 2) + w₁.length + 1) =
      w₂ ++ (v ++ (w' ++ c :: rest)) := drop_add_of_drop (w := [':']) hkeyAt.colon
  have hmark : (isDigit c || isMark c) = false := by
    cases hc with
    | inl h => rw [h]; rfl
    | inr h => rw [h]; rfl
  have hspace : isSpace c = false := by
    cases hc with
    | inl h => rw [h]; rfl
    | inr h => rw [h]; rfl
  have hitem := itemAt hkeeps hshort hw₂ hw' hvalue hmark hspace hcolon (by omega)
  refine ⟨j + w.length + (k.length + 2) + w₁.length + 1 + w₂.length + v.length, _, ?_, ?_,
    hitem.mark⟩
  · rw [objectRound_key hshort hkeyAt, hitem.skip, objectValue_item hshort hitem hc]
    rfl
  · simp only [length_cons, length_append]
    omega

theorem objectKept_last {w₁ w₂ : List Char} (hkeeps : Keeps item false text.length)
    (hshort : Short text) (hw : Blank w) (hkey : StringText k) (hw₁ : Blank w₁) (hw₂ : Blank w₂)
    (hvalue : Text .value v) (hw' : Blank w') :
    ObjectKept item allowed text
      (w ++ ('"' :: (k ++ '"' :: (w₁ ++ ':' :: (w₂ ++ (v ++ w')))))) := by
  intro i j n rest hdrop hpos hn
  simp only [append_assoc, cons_append] at hdrop
  cases n with
  | zero => exact absurd hn (Nat.not_lt_zero _)
  | succ n =>
      obtain ⟨i', j', hround, hj', -⟩ := objectRound_member allowed (rounds
        (fun again i j => objectRound item again text allowed i j) n) i hkeeps hshort hw hkey hw₁
          hw₂ hvalue hw' (.inr rfl) hdrop
      rw [rounds, hround, hj']
      rfl

theorem objectKept_more {w₁ w₂ : List Char} (hkeeps : Keeps item false text.length)
    (hshort : Short text) (hw : Blank w) (hkey : StringText k) (hw₁ : Blank w₁) (hw₂ : Blank w₂)
    (hvalue : Text .value v) (hw' : Blank w') (hrest : ObjectKept item allowed text t) :
    ObjectKept item allowed text
      (w ++ ('"' :: (k ++ '"' :: (w₁ ++ ':' :: (w₂ ++ (v ++ (w' ++ ',' :: t))))))) := by
  intro i j n rest hdrop hpos hn
  simp only [append_assoc, cons_append] at hdrop
  cases n with
  | zero => exact absurd hn (Nat.not_lt_zero _)
  | succ n =>
      obtain ⟨i', j', hround, hj', hmark⟩ := objectRound_member allowed (rounds
        (fun again i j => objectRound item again text allowed i j) n) i hkeeps hshort hw hkey hw₁
          hw₂ hvalue hw' (.inl rfl) hdrop
      have hlt := length_of_drop hmark
      have hcomma : text.drop (j' + 1) = t ++ '\x7d' :: rest :=
        drop_add_of_drop (w := [',']) hmark
      have hlength : j' + 1 + t.length =
          j + (w ++ ('"' :: (k ++ '"' ::
            (w₁ ++ ':' :: (w₂ ++ (v ++ (w' ++ ',' :: t))))))).length := by
        rw [hj']
        simp only [length_append, length_cons]
        omega
      rw [rounds, hround]
      refine (hrest i' (j' + 1) n rest hcomma (Nat.succ_pos _) (by omega)).trans ?_
      rw [← Int.natCast_add, hlength, Int.natCast_add]

theorem loops_kept (allowed : TypeOptions) {kind : Kind} (h : Text kind t)
    (hkeeps : Keeps item false text.length) (hshort : Short text) :
    (kind = .elements → ArrayKept item allowed text t) ∧
      (kind = .members → ObjectKept item allowed text t) := by
  induction h with
  | lastElement before value after =>
      exact ⟨fun _ => arrayKept_last hkeeps hshort before value after, by simp⟩
  | element before value after rest _ ih =>
      exact ⟨fun _ => arrayKept_more hkeeps hshort before value after (ih.1 rfl), by simp⟩
  | lastMember before key afterKey beforeValue value after =>
      exact ⟨by simp,
        fun _ => objectKept_last hkeeps hshort before key afterKey beforeValue value after⟩
  | member before key afterKey beforeValue value after rest _ ih =>
      exact ⟨by simp, fun _ =>
        objectKept_more hkeeps hshort before key afterKey beforeValue value after (ih.2 rfl)⟩
  | _ => exact ⟨by simp, by simp⟩

theorem completeArray_empty (hshort : Short ('[' :: (w ++ ']' :: rest))) (hw : Blank w)
    (hlimit : 0 < limit) :
    completeArray item limit ('[' :: (w ++ ']' :: rest)) allowed = .ok ⟨w.length + 2, []⟩ := by
  have hdrop : ('[' :: (w ++ ']' :: rest)).drop 1 = w ++ ']' :: rest := rfl
  obtain ⟨hskip, hsymbol⟩ := skipBlank_to hshort hdrop hw rfl
  have hlt := length_of_drop hsymbol
  cases limit with
  | zero => exact absurd hlimit (Nat.not_lt_zero _)
  | succ limit =>
      rw [completeArray, rounds, arrayRound, hshort.castLength, if_neg (by omega)]
      rw [hskip, atSymbol_of_drop hshort hsymbol, if_pos rfl]
      congr 2
      omega

theorem completeObject_empty (hshort : Short ('\x7b' :: (w ++ '\x7d' :: rest))) (hw : Blank w)
    (hlimit : 0 < limit) :
    completeObject item limit ('\x7b' :: (w ++ '\x7d' :: rest)) allowed =
      .ok ⟨w.length + 2, []⟩ := by
  have hdrop : ('\x7b' :: (w ++ '\x7d' :: rest)).drop 1 = w ++ '\x7d' :: rest := rfl
  obtain ⟨hskip, hsymbol⟩ := skipBlank_to hshort hdrop hw rfl
  have hlt := length_of_drop hsymbol
  cases limit with
  | zero => exact absurd hlimit (Nat.not_lt_zero _)
  | succ limit =>
      rw [completeObject, rounds, objectRound, hshort.castLength, if_neg (by omega)]
      rw [hskip, atSymbol_of_drop hshort hsymbol, if_pos rfl]
      congr 2
      omega

theorem completeAnyWith_quote (h : text.head? = some '"') :
    completeAnyWith item limit text allowed topLevel = completeString text allowed := by
  cases text with
  | nil => cases h
  | cons c rest =>
      rw [completeAnyWith, if_pos (Option.some.inj h)]

theorem completeAnyWith_words (hc : c ≠ '"' ∧ c ≠ '[' ∧ c ≠ '\x7b' ∧ c ≠ '-')
    (hdigit : isDigit c = false) :
    completeAnyWith item limit (c :: rest) allowed topLevel =
      completeWords (c :: rest) allowed := by
  simp [completeAnyWith, hc, hdigit]

theorem completeAnyWith_number (h : Numeral t) (hshort : Short (t ++ rest))
    (hrest : Follows rest topLevel) :
    completeAnyWith item limit (t ++ rest) allowed topLevel = .ok ⟨t.length, []⟩ := by
  have hnumber : completeNumber (t ++ rest) allowed topLevel = .ok ⟨t.length, []⟩ :=
    completeNumber_text h hshort hrest
  obtain ⟨c, r, hdigit, hcases⟩ := h.first
  have hplain : c ≠ '"' ∧ c ≠ '[' ∧ c ≠ '\x7b' ∧ c ≠ '-' ∧ c ≠ 'I' := by
    refine ⟨?_, ?_, ?_, ?_, ?_⟩ <;>
    · intro heq
      rw [heq] at hdigit
      cases hdigit
  have hdigit' : isDigit c = true := hdigit
  cases hcases with
  | inl h =>
      rw [h] at hnumber ⊢
      simp only [cons_append, completeAnyWith, hplain, hdigit']
      exact hnumber
  | inr h =>
      rw [h] at hnumber ⊢
      simp only [cons_append, completeAnyWith, head?_cons, ne_eq, Option.some.injEq, hplain]
      exact hnumber

/-- Step lemma: one more level of nesting. -/
theorem completeAnyWith_keeps (hkeeps : Keeps item false limit) :
    Keeps (fun text => completeAnyWith item limit text allowed topLevel) topLevel (limit + 1) := by
  intro v rest hvalue hrest hshort hlt
  have hitems : Keeps item false (v ++ rest).length := hkeeps.mono (Nat.le_of_lt_succ hlt)
  cases hvalue with
  | word w =>
      have hwords : completeWords (w.text ++ rest) allowed = .ok ⟨w.text.length, []⟩ :=
        completeWords_text w hshort
      rw [← hwords]
      cases w with
      | null => exact completeAnyWith_words (by decide) rfl
      | true => exact completeAnyWith_words (by decide) rfl
      | false => exact completeAnyWith_words (by decide) rfl
  | number numeral => exact completeAnyWith_number numeral hshort hrest
  | @string t inside =>
      simp only [cons_append, append_assoc] at hshort ⊢
      simp only [completeAnyWith]
      rw [completeString_text inside hshort]
      simp only [length_cons, length_append]
      rfl
  | @emptyArray w blanks =>
      simp only [cons_append, append_assoc] at hshort ⊢
      simp only [length_append, length_cons] at hlt
      simp only [completeAnyWith]
      rw [completeArray_empty hshort blanks (by omega)]
      simp only [length_cons, length_append]
      rfl
  | @array t inside =>
      have hkept := (loops_kept allowed inside hitems hshort).1 rfl
      simp only [cons_append, append_assoc] at hkept hlt ⊢
      simp only [completeAnyWith, Char.reduceEq, if_false, if_true, completeArray]
      rw [hkept 1 1 limit rest rfl (by omega) (by simp only [length_cons] at hlt ⊢; omega)]
      simp only [length_cons, length_append, length_nil]
      congr 2
      omega
  | @emptyObject w blanks =>
      simp only [cons_append, append_assoc] at hshort ⊢
      simp only [length_append, length_cons] at hlt
      simp only [completeAnyWith]
      rw [completeObject_empty hshort blanks (by omega)]
      simp only [length_cons, length_append]
      rfl
  | @object t inside =>
      have hkept := (loops_kept allowed inside hitems hshort).2 rfl
      simp only [cons_append, append_assoc] at hkept hlt ⊢
      simp only [completeAnyWith, Char.reduceEq, if_false, if_true, completeObject]
      rw [hkept 1 1 limit rest rfl (by omega) (by simp only [length_cons] at hlt ⊢; omega)]
      simp only [length_cons, length_append, length_nil]
      congr 2
      omega

theorem completeAny_keeps :
    Keeps (fun text => completeAny limit text allowed topLevel) topLevel limit := by
  induction limit generalizing topLevel with
  | zero =>
      intro v rest _ _ _ hlt
      exact absurd hlt (Nat.not_lt_zero _)
  | succ limit ih => exact completeAnyWith_keeps ih

/-- An exception that no handler catches. -/
def uncaught : Completing → Completing
  | .error (.malformed _) => .error .endless
  | result => result

/-- `completeAny` when the exceptions of its items are not caught. -/
def strictAny : Nat → List Char → TypeOptions → Bool → Completing
  | 0, _, _, _ => .error .endless
  | limit + 1, text, allowed, topLevel =>
      completeAnyWith (fun value => uncaught (strictAny limit value allowed false)) limit text
        allowed topLevel

theorem Keeps.uncaught (h : Keeps item topLevel limit) :
    Keeps (fun text => uncaught (item text)) topLevel limit := by
  intro v rest hvalue hrest hshort hlt
  dsimp only
  rw [h v rest hvalue hrest hshort hlt]
  rfl

theorem strictAny_keeps :
    Keeps (fun text => strictAny limit text allowed topLevel) topLevel limit := by
  induction limit generalizing topLevel with
  | zero =>
      intro v rest _ _ _ hlt
      exact absurd hlt (Nat.not_lt_zero _)
  | succ limit ih => exact completeAnyWith_keeps ih.uncaught

/-- A text of spaces, as the code knows them. -/
def Spaces (w : List Char) : Prop := ∀ c ∈ w, isSpace c = true

theorem Spaces.follows (hw : Spaces w) : Follows w true where
  atEnd := fun _ => rfl
  head := by
    intro c hc
    have hspace := hw c (mem_of_mem_head? hc)
    simp only [isSpace, mem_cons, not_mem_nil, or_false, decide_eq_true_eq] at hspace
    obtain rfl | rfl | rfl | rfl | rfl | rfl := hspace <;> rfl

/-- A value between spaces is parsed to itself. The exceptions of inner levels play no part in
it, and all calls that could be made stay in their texts and end. -/
structure FixedPoint (w v w' : List Char) (allowed : TypeOptions) : Prop where
  result : parseJson (w ++ (v ++ w')) allowed = .ok v
  strict : strictAny (limitOf (v ++ w')) (v ++ w') allowed true =
    completeAny (limitOf (v ++ w')) (v ++ w') allowed true
  bounded : ∀ text topLevel, text.length ≤ (w ++ (v ++ w')).length →
    Bounded text (completeAny (limitOf text) text allowed topLevel)

theorem parseJson_value (hshort : Short (w ++ (v ++ w'))) (hw : Spaces w)
    (hvalue : Text .value v) (hw' : Spaces w') :
    parseJson (w ++ (v ++ w')) allowed = .ok v := by
  obtain ⟨c, r, hv, hbegins⟩ := value_begins hvalue
  have hstart : v ++ w' = c :: (r ++ w') := by
    rw [hv]
    rfl
  have hskip : skipBlank (w ++ (v ++ w')) 0 = w.length := by
    have hspaces := skipBlank_of_drop (j := 0) hshort rfl hw
      (by rw [hstart]; exact noSpace_cons hbegins.space) (by rw [hstart]; exact cons_ne_nil _ _)
    rw [hspaces, Nat.zero_add]
  have hrest : Short (v ++ w') := by
    have hdrop := hshort.drop w.length
    rwa [drop_left] at hdrop
  have hkept : completeAny (limitOf (v ++ w')) (v ++ w') allowed true = .ok ⟨v.length, []⟩ :=
    completeAny_keeps v w' hvalue hw'.follows hrest (Nat.lt_succ_self _)
  have hpos : v.length ≠ 0 := by
    rw [hv]
    exact Nat.succ_ne_zero _
  rw [parseJson, hskip, drop_left]
  rw [hkept, ok_bind]
  dsimp only
  rw [if_neg (by omega), substr, if_neg (by omega), Int.toNat_natCast, take_left,
    append_nil]

theorem fixedPoint_of_short (hshort : Short (w ++ (v ++ w'))) (hw : Spaces w)
    (hvalue : Text .value v) (hw' : Spaces w') : FixedPoint w v w' allowed where
  result := parseJson_value hshort hw hvalue hw'
  strict := by
    have hrest : Short (v ++ w') := by
      have hdrop := hshort.drop w.length
      rwa [drop_left] at hdrop
    have hkept : completeAny (limitOf (v ++ w')) (v ++ w') allowed true = .ok ⟨v.length, []⟩ :=
      completeAny_keeps v w' hvalue hw'.follows hrest (Nat.lt_succ_self _)
    have hstrict : strictAny (limitOf (v ++ w')) (v ++ w') allowed true = .ok ⟨v.length, []⟩ :=
      strictAny_keeps v w' hvalue hw'.follows hrest (Nat.lt_succ_self _)
    exact hstrict.trans hkept.symm
  bounded := by
    intro text topLevel hlength
    exact bounded_completeAny (Nat.lt_of_le_of_lt hlength hshort) (Nat.lt_succ_self _)

def longString (m : Nat) : List Char := '"' :: (List.replicate m 'a' ++ ['"'])

theorem text_longString (m : Nat) : Text .value (longString m) := by
  apply Text.string
  induction m with
  | zero => exact .nil
  | succ m ih => exact .plain (by decide) (by decide) (by decide) ih

@[simp] theorem length_longString (m : Nat) : (longString m).length = m + 2 := by
  simp [longString]

@[simp] theorem rfind_eq_none {b : Char} (h : '\\' ∉ text) : rfind text '\\' b = none := by
  apply List.find?_eq_none.mpr
  intro i _ hfound
  simp only [decide_eq_true_eq] at hfound
  apply h
  have hmem : '\\' ∈ (text.drop i).take 2 := by
    rw [hfound]
    exact mem_cons_self
  exact mem_of_mem_drop (mem_of_mem_take hmem)

theorem scanString_replicate {m : Nat} {length : Int} (h : length ≤ i + m) (rest : List Char) :
    scanString length (List.replicate m 'a' ++ rest) i false = (max i length.toNat, false) := by
  induction m generalizing i with
  | zero =>
      have hmax : max i length.toNat = i := by omega
      have hstop : ¬ (i : Int) < length := by omega
      rw [hmax]
      cases rest with
      | nil => rfl
      | cons c rest => simp [scanString, hstop]
  | succ m ih =>
      rw [replicate_succ, cons_append, scanString]
      by_cases hlt : (i : Int) < length
      · rw [if_pos ⟨hlt, .inl (by decide)⟩, if_neg (by decide),
          ih (by push_cast at h ⊢; omega)]
        congr 1
        omega
      · rw [if_neg (fun hboth => hlt hboth.1)]
        congr 1
        omega

theorem toInt32_of_le {n : Nat} (h : 2147483648 ≤ n) : toInt32 n + 4294967296 ≤ n := by
  unfold toInt32
  rw [Int.bmod_eq_emod]
  by_cases hhigh : (n : Int) % ((4294967296 : Nat) : Int) ≥ (((4294967296 : Nat) : Int) + 1) / 2
  · rw [if_pos hhigh]
    omega
  · rw [if_neg hhigh]
    omega

/-- A string whose length is no 32-bit number is cut, or it is an exception. -/
theorem parseJson_longString {m : Nat} (h : 2147483646 ≤ m) :
    parseJson (longString m) allowed ≠ .ok (longString m) := by
  intro hparse
  have hcast : castLength (longString m) + 4294967296 ≤ m + 2 := by
    have hle := toInt32_of_le (n := m + 2) (by omega)
    rw [castLength, length_longString]
    exact hle
  have hscan : scanString (castLength (longString m)) ((longString m).drop 1) 1 false =
      (max 1 (castLength (longString m)).toNat, false) :=
    scanString_replicate (m := m) (by omega) ['"']
  have hplain : '\\' ∉ longString m := by
    simp [longString]
  have hskip : skipBlank (longString m) 0 = 0 := by
    simp [skipBlank, longString, skipLoop, isSpace]
  rw [parseJson, hskip, drop_zero] at hparse
  obtain ⟨completion, hcompletion, hresult⟩ := bind_eq_ok hparse
  rw [limitOf, completeAny, completeAnyWith_quote rfl] at hcompletion
  rw [completeString, if_neg (by simp [longString]), hscan] at hcompletion
  dsimp only at hcompletion
  rw [if_neg (by omega)] at hcompletion
  by_cases hallows : Allows allowed STR
  · rw [if_neg (not_not.mpr hallows), rfind_eq_none hplain, rfind_eq_none hplain,
      rfind_eq_none hplain] at hcompletion
    have heq := Except.ok.inj hcompletion
    rw [← heq] at hresult
    dsimp only at hresult
    rw [if_neg (fun hboth => cons_ne_nil _ _ hboth.2), substr, if_neg (by omega)] at hresult
    have hlength := congrArg List.length (Except.ok.inj hresult)
    rw [length_append, length_take, length_longString] at hlength
    simp only [length_cons, length_nil] at hlength
    omega
  · rw [if_pos hallows] at hcompletion
    cases hcompletion

/-- The string that is one symbol too long is cut to the empty string. -/
theorem long_string_cut :
    Text .value (longString 2147483646) ∧
      parseJson ([] ++ (longString 2147483646 ++ [])) 511 ≠ .ok (longString 2147483646) := by
  refine ⟨text_longString _, ?_⟩
  rw [append_nil]
  exact parseJson_longString (Nat.le_refl _)

/-- Complete texts of a length are fixed points exactly when the length is a 32-bit number. -/
theorem fixedPoint_iff_length (length : Nat) :
    (∀ w v w' allowed, (w ++ (v ++ w')).length = length → Spaces w → Text .value v →
      Spaces w' → FixedPoint w v w' allowed) ↔ length < 2147483648 := by
  constructor
  · intro hall
    by_contra hge
    have hlength : ([] ++ (longString (length - 2) ++ [])).length = length := by
      rw [nil_append, append_nil, length_longString]
      omega
    have hfixed := hall [] (longString (length - 2)) [] 511 hlength
      (by simp [Spaces]) (text_longString _) (by simp [Spaces])
    have hresult := hfixed.result
    rw [append_nil] at hresult
    exact parseJson_longString (by omega) hresult
  · intro hlt w v w' allowed hlength hw hvalue hw'
    apply fixedPoint_of_short _ hw hvalue hw'
    rw [Short, hlength]
    exact hlt

end Xllm.PartialJson
