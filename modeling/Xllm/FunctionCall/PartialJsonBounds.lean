import Xllm.FunctionCall.PartialJsonScan

/-!
# Bounds of partial parsing

Whatever the text is, complete or broken: calls and rounds go on in it, no place behind its end
is read, and the part that is kept lies in the text. The only exceptions are those for malformed
JSON.
-/

namespace Xllm.PartialJson

open Contract List

variable {item : List Char → Completing} {text w : List Char} {i j n limit : Nat} {c : Char}
  {allowed : TypeOptions} {topLevel : Bool}

def IsMalformed (e : Failure) : Prop := ∃ message, e = .malformed message

/-- What is kept lies in a text of the length, and there is something when it is complete. -/
structure Kept (length : Nat) (r : JsonCompletion) : Prop where
  start : 0 ≤ r.index
  stop : r.index ≤ length
  onward : r.string = [] → 0 < r.index

structure Bounded (text : List Char) (result : Completing) : Prop where
  ensures : Ensures result IsMalformed (Kept text.length)

theorem bounded_malformed (text : List Char) (message : String) :
    Bounded text (.error (.malformed message)) := ⟨message, rfl⟩

theorem bounded_repair {index : Int} {string : List Char} (hstart : 0 ≤ index)
    (hstop : index ≤ text.length) (hstring : string ≠ []) : Bounded text (.ok ⟨index, string⟩) :=
  ⟨⟨hstart, hstop, fun hnil => absurd hnil hstring⟩⟩

theorem bounded_complete {index : Int} {string : List Char} (hstart : 0 < index)
    (hstop : index ≤ text.length) : Bounded text (.ok ⟨index, string⟩) :=
  ⟨⟨Int.le_of_lt hstart, hstop, fun _ => hstart⟩⟩

theorem bounded_ite {p : Prop} [Decidable p] {yes no : Completing} (hyes : p → Bounded text yes)
    (hno : ¬ p → Bounded text no) : Bounded text (if p then yes else no) := by
  split
  · exact hyes ‹p›
  · exact hno ‹¬ p›

theorem skipLoop_bounds (length : Int) (w : List Char) (i : Nat) :
    i ≤ skipLoop length w i ∧ skipLoop length w i ≤ i + w.length := by
  induction w generalizing i with
  | nil => simp [skipLoop]
  | cons c w ih =>
      simp only [skipLoop, length_cons]
      have := ih (i + 1)
      split
      · omega
      · omega

theorem skipBlank_bounds (hj : j ≤ text.length) :
    j ≤ skipBlank text j ∧ skipBlank text j ≤ text.length := by
  have hloop := skipLoop_bounds (castLength text) (text.drop j) j
  rw [length_drop] at hloop
  rw [skipBlank]
  omega

theorem scanString_bounds (length : Int) (w : List Char) (i : Nat) (escaped : Bool) :
    i ≤ (scanString length w i escaped).1 ∧ (scanString length w i escaped).1 ≤ i + w.length := by
  induction w generalizing i escaped with
  | nil => simp [scanString]
  | cons c w ih =>
      simp only [scanString, length_cons]
      have := ih (i + 1) (if c = '\\' then !escaped else false)
      split
      · omega
      · simp

theorem scanNumber_bounds (length : Int) (w : List Char) (i : Nat) :
    i ≤ scanNumber length w i ∧ scanNumber length w i ≤ i + w.length := by
  induction w generalizing i with
  | nil => simp [scanNumber]
  | cons c w ih =>
      simp only [scanNumber, length_cons]
      have := ih (i + 1)
      split
      · omega
      · omega

theorem rfind_bound {a b : Char} (h : rfind text a b = some i) : i + 2 ≤ text.length := by
  have hfound := find?_some h
  simp only [decide_eq_true_eq] at hfound
  have hlength := congrArg List.length hfound
  simp only [length_take, length_drop, length_cons] at hlength
  omega

theorem bounded_atSymbol (hshort : Short text) {atEnd : Completing} {next : Char → Completing}
    (hend : Bounded text atEnd)
    (hnext : ∀ c, j < text.length → text[j]? = some c → Bounded text (next c)) :
    Bounded text (atSymbol text j atEnd next) := by
  rw [atSymbol, hshort.castLength]
  split
  · exact hend
  · rename_i hlt
    have hj : j < text.length := by omega
    rw [getElem?_eq_getElem hj]
    exact hnext _ hj (getElem?_eq_getElem hj)

theorem bounded_cutEscape {digits : Nat} (hshort : Short text) (hi : i + 2 ≤ text.length) :
    Bounded text (.ok (cutEscape text i digits)) := by
  have hcast : toInt32 i = i := toInt32_of_lt (Nat.lt_of_le_of_lt (by omega) hshort)
  simp only [cutEscape, hshort.castLength]
  split
  · exact bounded_repair (by omega) (by omega) (cons_ne_nil _ _)
  · exact bounded_repair (by omega) (by omega) (cons_ne_nil _ _)

theorem bounded_completeString (allowed : TypeOptions) (hshort : Short text) :
    Bounded text (completeString text allowed) := by
  rw [completeString]
  split
  · exact bounded_malformed _ _
  · rename_i hhead
    have hbounds := scanString_bounds (castLength text) (text.drop 1) 1 false
    have hone : 1 ≤ text.length := by
      cases text with
      | nil => simp at hhead
      | cons c text => simp
    rw [length_drop] at hbounds
    revert hbounds
    generalize scanString (castLength text) (text.drop 1) 1 false = scanned
    intro hbounds
    dsimp only
    rw [hshort.castLength]
    split
    · exact bounded_complete (by omega) (by omega)
    · split
      · exact bounded_malformed _ _
      · split
        · rename_i h
          exact bounded_cutEscape hshort (rfind_bound h)
        · split
          · rename_i h
            exact bounded_cutEscape hshort (rfind_bound h)
          · split
            · rename_i h
              exact bounded_cutEscape hshort (rfind_bound h)
            · split
              · exact bounded_repair (by omega) (by omega) (cons_ne_nil _ _)
              · exact bounded_repair (by omega) (by omega) (cons_ne_nil _ _)

/-- A number is cut to a prefix that is not empty, or is malformed. -/
theorem trimNumber_spec {special : Bool} (hi : 0 < i) (hle : i ≤ text.length) :
    Ensures (trimNumber text i special) IsMalformed (fun r => 0 < r.1 ∧ r.1 ≤ i) := by
  induction i generalizing special with
  | zero => exact absurd hi (Nat.lt_irrefl 0)
  | succ i ih =>
      rw [trimNumber, getElem?_eq_getElem (Nat.lt_of_succ_le hle)]
      dsimp only
      split
      · split
        · exact ⟨_, rfl⟩
        · rename_i hne
          refine (ih (by omega) (by omega)).mono_post ?_
          intro r hr
          omega
      · exact ⟨hi, Nat.le_refl _⟩

theorem bounded_completeNumber (hne : text ≠ []) :
    Bounded text (completeNumber text allowed topLevel) := by
  have hone : 1 ≤ text.length := List.length_pos_iff.mpr hne
  have hbounds := scanNumber_bounds (castLength text) (text.drop 1) 1
  rw [length_drop] at hbounds
  refine ⟨(trimNumber_spec (by omega) (by omega)).bind ?_⟩
  intro r hr
  apply Bounded.ensures
  apply bounded_ite
  · intro _
    apply bounded_ite
    · intro _
      exact bounded_complete (by omega) (by omega)
    · intro _
      exact bounded_malformed _ _
  · intro _
    exact bounded_complete (by omega) (by omega)

theorem bounded_completeWord {word message : String} {type : Nat} {otherwise : Completing}
    (hshort : Short text) (hword : word.toList ≠ []) (hother : Bounded text otherwise) :
    Bounded text (completeWord text allowed word type message otherwise) := by
  have hpos : 0 < word.toList.length := List.length_pos_iff.mpr hword
  unfold completeWord
  by_cases hsame : substr text (min word.toList.length (castLength text)) = word.toList
  · rw [if_pos hsame]
    have hlength := congrArg List.length hsame
    rw [hshort.castLength, substr, if_neg (by omega), length_take] at hlength
    exact bounded_complete (by omega) (by omega)
  · rw [if_neg hsame]
    by_cases hstart : text.length < word.toList.length ∧ word.toList.take text.length = text
    · rw [if_pos hstart]
      apply bounded_ite
      · intro _
        exact bounded_repair (Int.le_refl _) (by omega) hword
      · intro _
        exact bounded_malformed _ _
    · rw [if_neg hstart]
      exact hother

theorem bounded_completeWords (hshort : Short text) :
    Bounded text (completeWords text allowed) := by
  apply bounded_completeWord hshort (by simp)
  apply bounded_completeWord hshort (by simp)
  apply bounded_completeWord hshort (by simp)
  apply bounded_completeWord hshort (by simp)
  apply bounded_completeWord hshort (by simp)
  apply bounded_completeWord hshort (by simp)
  exact bounded_malformed _ _

def BoundedItem (item : List Char → Completing) (limit : Nat) : Prop :=
  ∀ value, Short value → value.length < limit → Bounded value (item value)

/-- The rounds that start further on in the text. -/
def BoundedFrom (again : Nat → Nat → Completing) (text : List Char) (j : Nat) : Prop :=
  ∀ i' j', i' ≤ text.length → j < j' → j' ≤ text.length → Bounded text (again i' j')

theorem bounded_closeArray (hi : i ≤ text.length) : Bounded text (closeArray allowed i) := by
  apply bounded_ite
  · intro _
    exact bounded_repair (by omega) (by omega) (cons_ne_nil _ _)
  · intro _
    exact bounded_malformed _ _

theorem bounded_closeObject (hi : i ≤ text.length) : Bounded text (closeObject allowed i) := by
  apply bounded_ite
  · intro _
    exact bounded_repair (by omega) (by omega) (cons_ne_nil _ _)
  · intro _
    exact bounded_malformed _ _

theorem bounded_catchObject {message : String} (hshort : Short text) (hi : i ≤ text.length) :
    Bounded text (catchObject text allowed i j message) := by
  unfold catchObject
  rw [hshort.castLength]
  apply bounded_ite
  · intro hlt
    have hj : j < text.length := by omega
    rw [getElem?_eq_getElem hj]
    apply bounded_ite
    · intro _
      exact bounded_malformed _ _
    · intro _
      exact bounded_closeObject hi
  · intro _
    exact bounded_closeObject hi

theorem bounded_item (hitem : BoundedItem item text.length) (hshort : Short text) (hj : 0 < j)
    (hlt : j < text.length) :
    Ensures (item (text.drop j)) IsMalformed (Kept (text.length - j)) := by
  have hthere := (hitem (text.drop j) (hshort.drop j) (by rw [length_drop]; omega)).ensures
  rw [length_drop] at hthere
  exact hthere

variable {again : Nat → Nat → Completing}

/-- One element of an array. -/
theorem bounded_arrayRound (hitem : BoundedItem item text.length) (hshort : Short text)
    (hi : i ≤ text.length) (hpos : 0 < j) (hj : j ≤ text.length)
    (hagain : BoundedFrom again text j) :
      Bounded text (arrayRound item again text allowed i j) := by
  have hskip := skipBlank_bounds hj
  apply bounded_ite
  · intro _
    exact bounded_closeArray hi
  intro _
  apply bounded_atSymbol hshort (bounded_closeArray hi)
  intro c hlt _
  apply bounded_ite
  · intro _
    exact bounded_complete (by omega) (by omega)
  intro _
  have hresult := bounded_item hitem hshort (by omega) hlt
  revert hresult
  cases item (text.drop (skipBlank text j)) with
  | error e =>
      intro hresult
      obtain ⟨message, rfl⟩ := hresult
      exact bounded_closeArray hi
  | ok result =>
      intro hresult
      have hstart := hresult.start
      have hstop := hresult.stop
      apply bounded_ite
      · intro _
        apply bounded_ite
        · intro _
          exact bounded_repair (by omega) (by omega) (by simp)
        · intro _
          exact bounded_closeArray hi
      · intro hnil
        have hnext : skipBlank text j + result.index.toNat ≤ text.length := by omega
        have hskip' := skipBlank_bounds hnext
        apply bounded_atSymbol hshort (bounded_closeArray hnext)
        intro c hlt' _
        apply bounded_ite
        · intro _
          exact hagain _ _ hnext (by omega) (by omega)
        · intro _
          apply bounded_ite
          · intro _
            exact bounded_complete (by omega) (by omega)
          · intro _
            exact bounded_closeArray hnext

theorem bounded_objectValue (hitem : BoundedItem item text.length) (hshort : Short text)
    (hi : i ≤ text.length) (hpos : 0 < j) (hagain : BoundedFrom again text j) :
    Bounded text (objectValue item again text allowed i j) := by
  unfold objectValue
  rw [hshort.castLength]
  apply bounded_ite
  · intro _
    exact bounded_closeObject hi
  intro hlt
  have hresult := bounded_item hitem hshort hpos (by omega)
  revert hresult
  cases item (text.drop j) with
  | error e =>
      intro hresult
      obtain ⟨message, rfl⟩ := hresult
      exact bounded_catchObject hshort hi
  | ok result =>
      intro hresult
      have hstart := hresult.start
      have hstop := hresult.stop
      apply bounded_ite
      · intro _
        apply bounded_ite
        · intro _
          exact bounded_repair (by omega) (by omega) (by simp)
        · intro _
          exact bounded_catchObject hshort hi
      · intro hnil
        have hnext : j + result.index.toNat ≤ text.length := by omega
        have hskip := skipBlank_bounds hnext
        apply bounded_atSymbol hshort (bounded_closeObject hnext)
        intro c hlt' _
        apply bounded_ite
        · intro _
          exact hagain _ _ hnext (by omega) (by omega)
        · intro _
          apply bounded_ite
          · intro _
            exact bounded_complete (by omega) (by omega)
          · intro _
            exact bounded_catchObject hshort hnext

theorem BoundedFrom.mono {j' : Nat}
    (h : BoundedFrom again text j) (hle : j ≤ j') : BoundedFrom again text j' := by
  intro i k hi hlt hk
  exact h i k hi (Nat.lt_of_le_of_lt hle hlt) hk

/-- One member of an object. -/
theorem bounded_objectRound (hitem : BoundedItem item text.length) (hshort : Short text)
    (hi : i ≤ text.length) (hj : j ≤ text.length) (hagain : BoundedFrom again text j) :
    Bounded text (objectRound item again text allowed i j) := by
  have hskip := skipBlank_bounds hj
  apply bounded_ite
  · intro _
    exact bounded_closeObject hi
  intro _
  apply bounded_atSymbol hshort (bounded_closeObject hi)
  intro c hlt _
  apply bounded_ite
  · intro _
    exact bounded_complete (by omega) (by omega)
  intro _
  have hkey := (bounded_completeString allowed (hshort.drop (skipBlank text j))).ensures
  rw [length_drop] at hkey
  revert hkey
  cases completeString (text.drop (skipBlank text j)) allowed with
  | error e =>
      intro hkey
      obtain ⟨message, rfl⟩ := hkey
      exact bounded_catchObject hshort hi
  | ok key =>
      intro hkey
      have hstop := hkey.stop
      apply bounded_ite
      · intro _
        apply bounded_ite
        · intro _
          exact bounded_repair (by omega) (by omega) (cons_ne_nil _ _)
        · intro _
          exact bounded_catchObject hshort hi
      · intro _
        have hnext : skipBlank text j + key.index.toNat ≤ text.length := by omega
        have hskip' := skipBlank_bounds hnext
        apply bounded_atSymbol hshort (bounded_closeObject hi)
        intro c hlt' _
        apply bounded_ite
        · intro _
          exact bounded_catchObject hshort hi
        · intro _
          have hcolon : skipBlank text (skipBlank text j + key.index.toNat) + 1 ≤ text.length :=
            hlt'
          have hskip'' := skipBlank_bounds hcolon
          exact bounded_objectValue hitem hshort hi (by omega) (hagain.mono (by omega))

theorem bounded_rounds {round : (Nat → Nat → Completing) → Nat → Nat → Completing}
    (hround : ∀ again i j, i ≤ text.length → 0 < j → j ≤ text.length →
      BoundedFrom again text j → Bounded text (round again i j))
    (hi : i ≤ text.length) (hpos : 0 < j) (hj : j ≤ text.length) (hn : text.length - j < n) :
    Bounded text (rounds round n i j) := by
  induction n generalizing i j with
  | zero => exact absurd hn (Nat.not_lt_zero _)
  | succ n ih =>
      apply hround _ i j hi hpos hj
      intro i' j' hi' hlt hj'
      exact ih hi' (by omega) hj' (by omega)

theorem bounded_completeAnyWith (hitem : BoundedItem item text.length) (hshort : Short text)
    (hlimit : text.length ≤ limit) :
    Bounded text (completeAnyWith item limit text allowed topLevel) := by
  unfold completeAnyWith
  split
  · exact bounded_malformed _ _
  · rename_i c rest
    have hone : 1 ≤ (c :: rest).length := by simp
    split
    · exact bounded_completeString allowed hshort
    · split
      · apply bounded_rounds _ hone Nat.one_pos hone (by omega)
        intro again i j hi hpos hj hagain
        exact bounded_arrayRound hitem hshort hi hpos hj hagain
      · split
        · apply bounded_rounds _ hone Nat.one_pos hone (by omega)
          intro again i j hi hpos hj hagain
          exact bounded_objectRound hitem hshort hi hj hagain
        · split
          · exact bounded_malformed _ _
          · split
            · exact bounded_completeNumber (cons_ne_nil _ _)
            · exact bounded_completeWords hshort

theorem bounded_completeAny (hshort : Short text) (hlimit : text.length < limit) :
    Bounded text (completeAny limit text allowed topLevel) := by
  induction limit generalizing text topLevel with
  | zero => exact absurd hlimit (Nat.not_lt_zero _)
  | succ limit ih =>
      apply bounded_completeAnyWith _ hshort (Nat.le_of_lt_succ hlimit)
      intro value hvalue hlt
      exact ih hvalue (by omega)

end Xllm.PartialJson
