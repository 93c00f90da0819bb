import Mathlib.Data.List.GetD
import Xllm.FunctionCall.Glm47
import Xllm.Lib.JsonText

/-!
# Values of GLM-4.7 arguments

How `process_xml_to_json_streaming` reads one value. Two buffers hold bytes back: those of
a character that is not complete, and those that may begin the closing tag. The second one
is flushed as a whole when a byte does not go on with the tag, and `tagRun` says what is in
it behind a text.
-/

namespace Xllm.FunctionCall.Glm47

open Text JsonText

variable {D : Type}

theorem length_tails {c : Char} {ranges : List (Nat × Nat)} (h : tails c = some ranges) :
    needed c = some (ranges.length + 1) ∧ Glm47.continuation c = false ∧ ranges.length ≤ 3 := by
  unfold tails at h
  unfold needed Glm47.continuation
  split_ifs at h <;> cases h <;> simp <;> grind

theorem exists_last_character {t : List Char} {due : List (Nat × Nat)}
    (h : utf8Run [] t = some due) (ht : t ≠ []) :
    ∃ s lead conts ranges, t = s ++ lead :: conts ∧ ValidUtf8 s ∧ tails lead = some ranges ∧
      conts.all JsonText.continuation ∧ ranges.length = conts.length + due.length := by
  -- the last byte starts a character, or it goes on with one
  induction t using List.reverseRecOn generalizing due with
  | nil => exact absurd rfl ht
  | append_singleton t c ih =>
      rw [utf8Run_append] at h
      obtain ⟨before, hbefore, hlast⟩ := Option.bind_eq_some_iff.1 h
      obtain ⟨after, hstep, hafter⟩ := Option.bind_eq_some_iff.1 hlast
      cases hafter
      cases before with
      | nil => exact ⟨t, c, [], due, rfl, hbefore, hstep, rfl, by simp⟩
      | cons range before =>
          obtain ⟨hc, rfl⟩ := utf8Step_cons hstep
          have hne : t ≠ [] := by
            rintro rfl
            cases hbefore
          obtain ⟨s, lead, conts, ranges, rfl, hs, hlead, hconts, hlen⟩ := ih hbefore hne
          refine ⟨s, lead, conts ++ [c], ranges, by simp, hs, hlead, ?_, ?_⟩
          · rw [List.all_append, hconts, List.all_cons, hc]
            rfl
          · rw [hlen, List.length_append, List.length_cons, List.length_cons, List.length_nil]
            omega

theorem lastStart_eq {s conts : List Char} {lead : Char}
    (hlead : Glm47.continuation lead = false) (hconts : conts.all JsonText.continuation)
    (hlen : conts.length ≤ 3) : lastStart (s ++ lead :: conts) = some (conts.length + 1) := by
  have hall : ∀ c ∈ conts, Glm47.continuation c = true := List.all_eq_true.1 hconts
  have hsize : (s ++ lead :: conts).length = s.length + conts.length + 1 := by
    simp only [List.length_append, List.length_cons]
    omega
  rw [lastStart, List.find?_range'_eq_some, hsize]
  refine ⟨?_, ?_, ?_⟩
  · have hpos : s.length + conts.length + 1 - (conts.length + 1) = s.length := by omega
    simpa using hlead
  · rw [List.mem_range'_1]
    omega
  · intro i hi hlt
    obtain ⟨j, hj⟩ : ∃ j, s.length + conts.length + 1 - i = s.length + (j + 1) ∧ j < conts.length :=
      ⟨conts.length - i, by omega, by omega⟩
    rw [hj.1, List.getD_append_right _ _ _ _ (by omega), Nat.add_sub_cancel_left,
      List.getD_cons_succ, List.getD_eq_getElem _ _ hj.2]
    simpa using hall _ (List.getElem_mem hj.2)

theorem splitIncompleteUtf8_last {s conts : List Char} {lead : Char} {ranges : List (Nat × Nat)}
    (hlead : tails lead = some ranges) (hconts : conts.all JsonText.continuation)
    (hlen : conts.length ≤ ranges.length) :
    splitIncompleteUtf8 (s ++ lead :: conts) =
      if conts.length = ranges.length then (s ++ lead :: conts, []) else (s, lead :: conts) := by
  obtain ⟨hneeded, hstart, hshort⟩ := length_tails hlead
  have hpos : (s ++ lead :: conts).length - (conts.length + 1) = s.length := by simp
  have hget : (s ++ lead :: conts).getD s.length ' ' = lead := by
    rw [List.getD_append_right _ _ _ _ (Nat.le_refl _), Nat.sub_self]
    rfl
  rw [splitIncompleteUtf8, lastStart_eq hstart hconts (by omega)]
  simp only [hpos, hget, hneeded, List.take_left, List.drop_left, Nat.add_right_cancel_iff]

/-- `split_incomplete_utf8` cuts off the bytes of a character that is not complete. -/
theorem splitIncompleteUtf8_spec {t : List Char} {due : List (Nat × Nat)}
    (h : utf8Run [] t = some due) :
    ∃ s p, splitIncompleteUtf8 t = (s, p) ∧ t = s ++ p ∧ ValidUtf8 s ∧ (due = [] → p = []) := by
  by_cases ht : t = []
  · subst ht
    exact ⟨[], [], rfl, rfl, rfl, fun _ => rfl⟩
  · obtain ⟨s, lead, conts, ranges, rfl, hs, hlead, hconts, hlen⟩ := exists_last_character h ht
    have hsplit := splitIncompleteUtf8_last (s := s) hlead hconts (by omega)
    by_cases hdue : due = []
    · subst hdue
      rw [hsplit, if_pos (by rw [hlen]; rfl)]
      exact ⟨_, _, rfl, by rw [List.append_nil], h, fun _ => rfl⟩
    · have hpos := List.length_pos_iff.2 hdue
      rw [hsplit, if_neg (by omega)]
      exact ⟨_, _, rfl, rfl, hs, fun hnil => absurd hnil hdue⟩

mutual

def encoded : Json D → Bool
  | .string text => ValidUtf8 text
  | .array values => encodedItems values
  | .object entries => encodedEntries entries
  | _ => true

def encodedItems : List (Json D) → Bool
  | [] => true
  | value :: values => encoded value && encodedItems values

def encodedEntries : List (List Char × Json D) → Bool
  | [] => true
  | (key, value) :: entries => decide (ValidUtf8 key) && encoded value && encodedEntries entries

end

/-- What is documented of the JSON library. `dump` throws only for strings that are no valid
UTF-8, and `parse` returns none of these. -/
structure Library.Lawful (lib : Library D) : Prop where
  dump_string : ∀ t, lib.dump (.string t) = if ValidUtf8 t then some (quote t) else .none
  dump_isSome : ∀ v, encoded v → (lib.dump v).isSome
  dump_utf8 : ∀ {v t}, lib.dump v = some t → ValidUtf8 t
  parse_encoded : ∀ {t v}, lib.parse t = some v → encoded v
  /-- An exception leaves no value. -/
  parse_overflows : ∀ {t}, lib.overflows t → lib.parse t = .none

variable {lib : Library D}

theorem Library.Lawful.escaped (hlib : lib.Lawful) {t : List Char} (ht : ValidUtf8 t) :
    escaped lib t = escape t := by
  rw [Glm47.escaped, hlib.dump_string, if_pos ht]
  have hlen : (quote t).length - 2 = (escape t).length := by
    simp [quote]
  dsimp only
  rw [hlen, quote, List.cons_append, List.drop_one, List.tail_cons, List.take_left]

/-- A byte is added to the bytes that may begin the closing tag. -/
def tagStep (tag : List Char) (c : Char) : List Char :=
  if tag ++ [c] <+: valClose then tag ++ [c] else []

/-- What the buffer holds behind a text. -/
def tagRun (tag t : List Char) : List Char := t.foldl tagStep tag

def Unclosed : List Char → List Char → Prop
  | _, [] => True
  | tag, c :: t => tagStep tag c ≠ valClose ∧ Unclosed (tagStep tag c) t

instance Unclosed.decidable : ∀ tag t, Decidable (Unclosed tag t)
  | _, [] => inferInstanceAs (Decidable True)
  | tag, c :: t =>
      have := Unclosed.decidable (tagStep tag c) t
      inferInstanceAs (Decidable (tagStep tag c ≠ valClose ∧ Unclosed (tagStep tag c) t))

theorem tagRun_append (tag t u : List Char) : tagRun tag (t ++ u) = tagRun (tagRun tag t) u :=
  List.foldl_append

theorem unclosed_append {tag t u : List Char} :
    Unclosed tag (t ++ u) ↔ Unclosed tag t ∧ Unclosed (tagRun tag t) u := by
  induction t generalizing tag with
  | nil => simp [Unclosed, tagRun]
  | cons c t ih =>
      simp only [List.cons_append, Unclosed, ih, and_assoc]
      rfl

theorem tagStep_suffix (tag : List Char) (c : Char) : tagStep tag c <:+ tag ++ [c] := by
  unfold tagStep
  split
  · exact List.suffix_refl _
  · exact List.nil_suffix

theorem tagRun_suffix (tag t : List Char) : tagRun tag t <:+ tag ++ t := by
  induction t generalizing tag with
  | nil =>
      rw [List.append_nil]
      exact List.suffix_refl tag
  | cons c t ih =>
      have hstep : tagStep tag c ++ t <:+ tag ++ c :: t := by
        rw [List.append_cons tag c t, List.suffix_append_self_iff]
        exact tagStep_suffix tag c
      exact (ih (tagStep tag c)).trans hstep

theorem tagStep_begins (tag : List Char) (c : Char) : tagStep tag c <+: valClose := by
  unfold tagStep
  split
  · assumption
  · exact List.nil_prefix

theorem tagRun_begins {tag : List Char} (h : tag <+: valClose) (t : List Char) :
    tagRun tag t <+: valClose := by
  induction t generalizing tag with
  | nil => exact h
  | cons c t ih => exact ih (tagStep_begins tag c)

theorem unclosed_of_absent {tag t : List Char} (h : ¬ valClose <:+: tag ++ t) :
    Unclosed tag t := by
  induction t generalizing tag with
  | nil => trivial
  | cons c t ih =>
      have hstep : tagStep tag c ++ t <:+ tag ++ c :: t := by
        rw [List.append_cons tag c t, List.suffix_append_self_iff]
        exact tagStep_suffix tag c
      have hrest : ¬ valClose <:+: tagStep tag c ++ t := fun hin => h (hin.trans hstep.isInfix)
      refine ⟨?_, ih hrest⟩
      intro hclose
      exact hrest (by rw [hclose]; exact (List.prefix_append valClose t).isInfix)

theorem tagRun_valClose_of_begun {tag : List Char} (hpre : tag <+: valClose)
    (hne : tag ≠ valClose) (hbegun : tag ≠ []) :
    tagRun tag valClose = [] ∧ Unclosed tag valClose := by
  have hall : ∀ n < 12, n ≠ 0 → tagRun (valClose.take n) valClose = [] ∧
      Unclosed (valClose.take n) valClose := by decide
  have hlen : tag.length < 12 := by
    have hle : tag.length ≤ valClose.length := hpre.length_le
    have hlt : tag.length ≠ valClose.length := fun heq => hne (hpre.eq_of_length heq)
    have hsize : valClose.length = 12 := rfl
    omega
  rw [List.prefix_iff_eq_take.1 hpre]
  exact hall tag.length hlen fun hzero => hbegun (List.length_eq_zero_iff.1 hzero)

theorem tagRun_valClose : Unclosed [] valClose.dropLast ∧
    tagRun [] valClose.dropLast = valClose.dropLast := by decide

section

variable (lib : Library D) (funcName : List Char) (tools : List (JsonTool D))

/-- Bytes are processed without an exception. -/
def Feeds (s : Xml) (t : List Char) (s' : Xml) (output : List Char) : Prop :=
  processXmlToJsonStreaming lib funcName tools s t = (s', some output)

variable {lib funcName tools} {s s' s'' : Xml} {t u o o' : List Char} {c : Char}

theorem Feeds.nil : Feeds lib funcName tools s [] s [] := rfl

theorem Feeds.single (h : s.feed lib funcName tools c = (s', some o)) :
    Feeds lib funcName tools s [c] s' o := by
  simp [Feeds, processXmlToJsonStreaming, h]

theorem Feeds.process_append (h : Feeds lib funcName tools s t s' o) (u : List Char) :
    processXmlToJsonStreaming lib funcName tools s (t ++ u) =
      ((processXmlToJsonStreaming lib funcName tools s' u).1,
        (processXmlToJsonStreaming lib funcName tools s' u).2.map (o ++ ·)) := by
  unfold Feeds at h
  induction t generalizing s o with
  | nil =>
      cases h
      simp
  | cons c t ih =>
      rw [processXmlToJsonStreaming] at h
      rw [List.cons_append, processXmlToJsonStreaming]
      cases hfeed : s.feed lib funcName tools c with
      | mk s₁ output =>
          cases output with
          | none =>
              rw [hfeed] at h
              cases h
          | some first =>
              simp only [hfeed, Prod.mk.injEq, Option.map_eq_some_iff] at h ⊢
              obtain ⟨hs, rest, hrest, rfl⟩ := h
              rw [ih (Prod.ext hs hrest)]
              simp [Function.comp_def]

theorem Feeds.append (h : Feeds lib funcName tools s t s' o)
    (h' : Feeds lib funcName tools s' u s'' o') :
    Feeds lib funcName tools s (t ++ u) s'' (o ++ o') := by
  rw [Feeds, h.process_append u, h']
  rfl

theorem not_suffix_of_lt {tag : List Char} (hpre : tag <+: valClose) (hne : tag ≠ valClose)
    (h : tag ++ [c] ≠ valClose) : ¬ valClose <:+ tag ++ [c] := by
  intro hsuffix
  have hle : tag.length ≤ valClose.length := hpre.length_le
  have hlt : tag.length ≠ valClose.length := fun heq => hne (hpre.eq_of_length heq)
  refine h (hsuffix.eq_of_length_le ?_).symm
  rw [List.length_append, List.length_singleton]
  omega

theorem feed_inValue (hstate : s.streamState = .inValue) (hpre : s.xmlTagBuffer <+: valClose)
    (hne : s.xmlTagBuffer ≠ valClose) :
    s.feed lib funcName tools c =
      if s.xmlTagBuffer ++ [c] = valClose then
        { s with xmlTagBuffer := valClose }.closeValue lib
      else if s.xmlTagBuffer ++ [c] <+: valClose then
        ({ s with xmlTagBuffer := s.xmlTagBuffer ++ [c] }, some [])
      else
        (({ s with xmlTagBuffer := s.xmlTagBuffer ++ [c] }.valueContent lib).1,
          some ({ s with xmlTagBuffer := s.xmlTagBuffer ++ [c] }.valueContent lib).2) := by
  rw [Xml.feed, Xml.scanBuffer]
  simp only [hstate]
  by_cases hclose : s.xmlTagBuffer ++ [c] = valClose
  · rw [if_pos hclose, hclose, if_pos (List.suffix_refl _)]
  · rw [if_neg hclose, if_neg (not_suffix_of_lt hpre hne hclose)]

/-- What has been written of a value, of which `w` has left the buffers. A text is written
as a string, the value of another type as it stands. -/
def Written (isText started : Bool) (w held out : List Char) : Prop :=
  if isText then ValidUtf8 w ∧ out = if started then '"' :: escape w else []
  else out = w ∧ held = []

/-- The value has been read up to `x`, and `out` has been written. -/
structure Reading (isText : Bool) (s : Xml) (x out : List Char) : Prop where
  state : s.streamState = .inValue
  notFirst : s.isFirstParam = false
  type : decide (s.valueType = "string".toList) = isText
  tag : s.xmlTagBuffer = tagRun [] x
  unclosed : tagRun [] x ≠ valClose
  fresh : s.valueStarted = false → x = s.xmlTagBuffer ∧ s.utf8Buffer = [] ∧ s.currentValue = []
  written : ∃ w, x = w ++ s.utf8Buffer ++ s.xmlTagBuffer ∧
    Written isText s.valueStarted w s.utf8Buffer out

variable {isText : Bool} {x out : List Char}

/-- The bytes in the buffers are written, up to a character that is not complete. -/
theorem Reading.content (hlib : lib.Lawful) (h : Reading isText s x out)
    (hutf8 : isText → ∃ due, utf8Run [] (x ++ [c]) = some due)
    (hstep : tagStep (tagRun [] x) c = []) :
    Reading isText ({ s with xmlTagBuffer := s.xmlTagBuffer ++ [c] }.valueContent lib).1 (x ++ [c])
      (out ++ ({ s with xmlTagBuffer := s.xmlTagBuffer ++ [c] }.valueContent lib).2) := by
  obtain ⟨w, hx, hwritten⟩ := h.written
  have hrun : tagRun [] (x ++ [c]) = [] := by
    rw [tagRun_append]
    exact hstep
  have htype := h.type
  cases isText with
  | false =>
      simp only [decide_eq_false_iff_not] at htype
      have htype' : ¬ ({ s with xmlTagBuffer := s.xmlTagBuffer ++ [c] } : Xml).valueType =
        "string".toList := htype
      obtain ⟨rfl, hheld⟩ := hwritten
      rw [Xml.valueContent, if_neg htype']
      refine ⟨h.state, h.notFirst, decide_eq_false htype, hrun.symm, ?_, ?_, ?_⟩
      · rw [hrun]
        decide
      · exact fun hstarted => absurd hstarted (by simp)
      · refine ⟨out ++ (s.xmlTagBuffer ++ [c]), ?_, rfl, hheld⟩
        rw [hx, hheld]
        simp
  | true =>
      simp only [decide_eq_true_eq] at htype
      have htype' : ({ s with xmlTagBuffer := s.xmlTagBuffer ++ [c] } : Xml).valueType =
        "string".toList := htype
      obtain ⟨hw, hout⟩ := hwritten
      obtain ⟨due, hdue⟩ := hutf8 rfl
      have hfull : utf8Run [] (s.utf8Buffer ++ (s.xmlTagBuffer ++ [c])) = some due := by
        rw [hx, List.append_assoc, List.append_assoc, utf8Run_append, hw] at hdue
        simpa using hdue
      obtain ⟨front, held, hsplit, hjoin, hfront, -⟩ := splitIncompleteUtf8_spec hfull
      rw [Xml.valueContent, if_pos htype']
      refine ⟨h.state, h.notFirst, decide_eq_true htype, hrun.symm, ?_, ?_, ?_⟩
      · rw [hrun]
        decide
      · exact fun hstarted => absurd hstarted (by simp)
      · refine ⟨w ++ front, ?_, ?_, ?_⟩
        · rw [hx, hsplit]
          simp only [List.append_assoc, List.append_nil] at hjoin ⊢
          rw [hjoin]
        · rw [ValidUtf8, utf8Run_append, hw]
          exact hfront
        · rw [hsplit, hout, escape_append]
          have hescaped : (if front = [] then [] else escaped lib front) = escape front := by
            split
            · rename_i hnil
              rw [hnil]
              rfl
            · exact hlib.escaped hfront
          simp only [hescaped]
          cases hstarted : s.valueStarted with
          | false =>
              have hnil : w = [] := by
                have hbuf := (h.fresh hstarted).1
                rw [hx] at hbuf
                have hlen := congrArg List.length hbuf
                simp only [List.length_append] at hlen
                exact List.length_eq_zero_iff.1 (by omega)
              simp [hnil, escape]
          | true => simp

/-- Step lemma: one character of a value. -/
theorem Reading.feed (hlib : lib.Lawful) (h : Reading isText s x out)
    (hutf8 : isText → ∃ due, utf8Run [] (x ++ [c]) = some due)
    (hopen : tagStep (tagRun [] x) c ≠ valClose) :
    ∃ s' o, s.feed lib funcName tools c = (s', some o) ∧
      Reading isText s' (x ++ [c]) (out ++ o) := by
  have hpre : s.xmlTagBuffer <+: valClose := by
    rw [h.tag]
    exact tagRun_begins List.nil_prefix x
  have hne : s.xmlTagBuffer ≠ valClose := by
    rw [h.tag]
    exact h.unclosed
  have hrun : tagRun [] (x ++ [c]) = tagStep s.xmlTagBuffer c := by
    rw [tagRun_append, h.tag]
    rfl
  rw [← h.tag] at hopen
  rw [feed_inValue h.state hpre hne]
  by_cases hgrow : s.xmlTagBuffer ++ [c] <+: valClose
  · have hstep : tagStep s.xmlTagBuffer c = s.xmlTagBuffer ++ [c] := if_pos hgrow
    rw [hstep] at hopen hrun
    rw [if_neg hopen, if_pos hgrow]
    refine ⟨_, _, rfl, h.state, h.notFirst, h.type, hrun.symm, ?_, ?_, ?_⟩
    · rw [hrun]
      exact hopen
    · intro hstarted
      obtain ⟨hx, hrest⟩ := h.fresh hstarted
      exact ⟨congrArg (· ++ [c]) hx, hrest⟩
    · obtain ⟨w, hx, hwritten⟩ := h.written
      refine ⟨w, ?_, ?_⟩
      · rw [← List.append_assoc, ← hx]
      · simpa using hwritten
  · have hstep : tagStep s.xmlTagBuffer c = [] := if_neg hgrow
    have hclose : s.xmlTagBuffer ++ [c] ≠ valClose := by
      intro heq
      exact hgrow (by rw [heq])
    rw [if_neg hclose, if_neg hgrow]
    rw [h.tag] at hstep
    exact ⟨_, _, rfl, h.content hlib hutf8 hstep⟩

theorem Reading.feeds (hlib : lib.Lawful) (h : Reading isText s x out)
    (hutf8 : isText → ∃ due, utf8Run [] (x ++ t) = some due)
    (hopen : Unclosed (tagRun [] x) t) :
    ∃ s' o, Feeds lib funcName tools s t s' o ∧ Reading isText s' (x ++ t) (out ++ o) := by
  induction t generalizing s x out with
  | nil => exact ⟨s, [], Feeds.nil, by rwa [List.append_nil, List.append_nil]⟩
  | cons c t ih =>
      rw [List.append_cons] at hutf8
      have hfirst : isText → ∃ due, utf8Run [] (x ++ [c]) = some due := by
        intro htext
        obtain ⟨due, hdue⟩ := hutf8 htext
        rw [utf8Run_append] at hdue
        obtain ⟨due', hdue', -⟩ := Option.bind_eq_some_iff.1 hdue
        exact ⟨due', hdue'⟩
      obtain ⟨s₁, o₁, hfeed, hread⟩ := h.feed hlib hfirst hopen.1
      have hrest : Unclosed (tagRun [] (x ++ [c])) t := by
        rw [tagRun_append]
        exact hopen.2
      obtain ⟨s', o', hfeeds, hread'⟩ := ih hread hutf8 hrest
      refine ⟨s', o₁ ++ o', (Feeds.single hfeed).append hfeeds, ?_⟩
      rwa [List.append_cons, ← List.append_assoc]

/-- The state between two pairs. -/
structure Between (s : Xml) (first : Bool) : Prop where
  state : s.streamState = .init ∨ s.streamState = .between
  buffer : s.xmlTagBuffer = []
  utf8 : s.utf8Buffer = []
  first : s.isFirstParam = first

/-- How a value is written. -/
def valueText (isText : Bool) (v : List Char) : List Char := if isText then quote v else v

theorem closeValue_started (hlib : lib.Lawful) (hbuffer : s.xmlTagBuffer = valClose)
    (hfirst : s.isFirstParam = false) (hstarted : s.valueStarted = true)
    (htype : decide (s.valueType = "string".toList) = isText)
    (htext : isText → ValidUtf8 s.utf8Buffer) :
    ∃ s', s.closeValue lib = (s',
      some (if isText then escape s.utf8Buffer ++ ['"'] else s.utf8Buffer)) ∧
      Between s' false := by
  have hfinal : s.xmlTagBuffer.take (s.xmlTagBuffer.length - valClose.length) = [] := by
    rw [hbuffer, Nat.sub_self, List.take_zero]
  rw [Xml.closeValue, hfinal, if_pos hstarted, List.append_nil]
  refine ⟨_, Prod.ext rfl ?_, Or.inr rfl, rfl, rfl, hfirst⟩
  cases isText with
  | true =>
      have htype' := of_decide_eq_true htype
      simp only [if_true]
      split
      · rename_i hnil
        rw [hnil]
        rfl
      · rw [hlib.escaped (htext rfl)]
  | false =>
      have htype' := of_decide_eq_false htype
      simp only [htype', if_false, Bool.false_eq_true, List.append_nil]
      split
      · rename_i hnil
        rw [hnil]
      · rfl

theorem closeValue_fresh (hlib : lib.Lawful) (hbuffer : s.xmlTagBuffer = valClose)
    (hfirst : s.isFirstParam = false) (hstarted : s.valueStarted = false)
    (htype : s.valueType = "string".toList) (hheld : s.utf8Buffer = [])
    (hvalue : s.currentValue = []) :
    ∃ s', s.closeValue lib = (s', some (quote [])) ∧ Between s' false := by
  have hfinal : s.xmlTagBuffer.take (s.xmlTagBuffer.length - valClose.length) = [] := by
    rw [hbuffer, Nat.sub_self, List.take_zero]
  have hvalid : ValidUtf8 [] := rfl
  have hdump : formatValueComplete lib [] "string".toList = some (quote []) := by
    rw [formatValueComplete, if_pos rfl, hlib.dump_string, if_pos hvalid]
  rw [Xml.closeValue, hfinal, if_neg (by rw [hstarted]; decide), List.append_nil, hvalue, htype,
    hdump]
  exact ⟨_, rfl, Or.inr rfl, rfl, hheld, hfirst⟩

theorem Reading.closeValue (hlib : lib.Lawful) (h : Reading isText s (x ++ valClose.dropLast) out)
    (hbuffer : s.xmlTagBuffer = valClose.dropLast) (htext : isText → ValidUtf8 x)
    (hraw : isText = false → x ≠ []) :
    ∃ s' o, { s with xmlTagBuffer := valClose }.closeValue lib = (s', some o) ∧
      Between s' false ∧ out ++ o = valueText isText x := by
  obtain ⟨w, hx, hwritten⟩ := h.written
  rw [hbuffer, List.append_cancel_right_eq] at hx
  rcases Bool.eq_false_or_eq_true s.valueStarted with hstarted | hstarted
  · have hheld : isText → ValidUtf8 s.utf8Buffer := by
      intro ht
      have hvalid := htext ht
      rw [Written, if_pos ht] at hwritten
      rw [hx, ValidUtf8, utf8Run_append, hwritten.1] at hvalid
      exact hvalid
    obtain ⟨s', hclose, hbetween⟩ := closeValue_started (s := { s with xmlTagBuffer := valClose })
      hlib rfl h.notFirst hstarted h.type hheld
    refine ⟨s', _, hclose, hbetween, ?_⟩
    cases isText with
    | true =>
        simp only [hstarted] at hwritten
        rw [hwritten.2, hx, valueText, quote, escape_append]
        simp
    | false =>
        rw [hwritten.1, hx]
        rfl
  · obtain ⟨hnil, hheld, hvalue⟩ := h.fresh hstarted
    have hempty : x = [] := by
      rw [hbuffer] at hnil
      simpa using hnil
    cases isText with
    | false => exact absurd hempty (hraw rfl)
    | true =>
        simp only [hstarted] at hwritten
        obtain ⟨s', hclose, hbetween⟩ := closeValue_fresh (s := { s with xmlTagBuffer := valClose })
          hlib rfl h.notFirst hstarted (of_decide_eq_true h.type) hheld hvalue
        refine ⟨s', _, hclose, hbetween, ?_⟩
        rw [hwritten.2, hempty]
        rfl

theorem Reading.close (hlib : lib.Lawful) (h : Reading isText s x out) (hrun : tagRun [] x = [])
    (htext : isText → ValidUtf8 x) (hraw : isText = false → x ≠ []) :
    ∃ s' o, Feeds lib funcName tools s valClose s' o ∧ Between s' false ∧
      out ++ o = valueText isText x := by
  have hutf8 : isText → ∃ due, utf8Run [] (x ++ valClose.dropLast) = some due := by
    intro ht
    refine ⟨[], ?_⟩
    rw [utf8Run_append, htext ht]
    decide
  have hopen : Unclosed (tagRun [] x) valClose.dropLast := by
    rw [hrun]
    exact tagRun_valClose.1
  obtain ⟨s₁, o₁, hfeeds, hread⟩ : ∃ s₁ o₁, Feeds lib funcName tools s valClose.dropLast s₁ o₁ ∧
      Reading isText s₁ (x ++ valClose.dropLast) (out ++ o₁) := h.feeds hlib hutf8 hopen
  have hbuffer : s₁.xmlTagBuffer = valClose.dropLast := by
    rw [hread.tag, tagRun_append, hrun]
    exact tagRun_valClose.2
  have hlast : s₁.feed lib funcName tools '>' =
    { s₁ with xmlTagBuffer := valClose }.closeValue lib := by
    rw [feed_inValue hread.state (by rw [hbuffer]; decide) (by rw [hbuffer]; decide), hbuffer,
      if_pos (by decide)]
  obtain ⟨s', o, hclose, hbetween, hout⟩ := hread.closeValue hlib hbuffer htext hraw
  have hvalClose : valClose = valClose.dropLast ++ ['>'] := by decide
  refine ⟨s', o₁ ++ o, ?_, hbetween, ?_⟩
  · rw [hvalClose]
    exact hfeeds.append (Feeds.single (hlast.trans hclose))
  · rw [← hout, List.append_assoc]

end

end Xllm.FunctionCall.Glm47
