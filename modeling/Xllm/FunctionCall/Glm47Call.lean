import Xllm.FunctionCall.Glm47Arguments

/-!
# The text of GLM-4.7 calls

What `parse_streaming_increment` finds in a call or in a part of it: the end token stands at
the end only, and the arguments begin with the first key. A start of the end token is
processed like the arguments, before it is known to be one. When a call is complete its
arguments are parsed and stored, which throws when a numeral is out of range.
-/

namespace Xllm.FunctionCall.Glm47

open Text JsonText List

variable {D : Type} {lib : Library D} {funcName : List Char} {tools : List (JsonTool D)}
  {s s' : Xml} {t u o : List Char} {pairs : List (List Char × List Char)}
  {machine : State} {fields : List (List Char × Value)}

theorem Feeds.split (h : Feeds lib funcName tools s (t ++ u) s' o) :
    ∃ s₁ o₁ o₂, Feeds lib funcName tools s t s₁ o₁ ∧ Feeds lib funcName tools s₁ u s' o₂ ∧
      o = o₁ ++ o₂ := by
  induction t generalizing s o with
  | nil => exact ⟨s, [], o, Feeds.nil, h, rfl⟩
  | cons c t ih =>
      rw [Feeds, cons_append, processXmlToJsonStreaming] at h
      cases hfeed : s.feed lib funcName tools c with
      | mk next output =>
          cases output with
          | none =>
              rw [hfeed] at h
              cases h
          | some first =>
              simp only [hfeed, Prod.mk.injEq, Option.map_eq_some_iff] at h
              obtain ⟨hs, rest, hrest, rfl⟩ := h
              obtain ⟨s₁, o₁, o₂, hfirst, hlast, rfl⟩ := ih (Prod.ext hs hrest)
              refine ⟨s₁, first ++ o₁, o₂, (Feeds.single hfeed).append hfirst, hlast, ?_⟩
              rw [append_assoc]

theorem Feeds.unique {s₁ s₂ : Xml} {o₁ o₂ : List Char} (h₁ : Feeds lib funcName tools s t s₁ o₁)
    (h₂ : Feeds lib funcName tools s t s₂ o₂) : s₁ = s₂ ∧ o₁ = o₂ := by
  rw [Feeds, h₁, Prod.mk.injEq, Option.some.injEq] at h₂
  exact h₂

theorem feeds_eot_closed {e : List Char} (he : e <+: eotToken) (h : Closed s machine fields) :
    ∃ s', Feeds lib funcName tools s e s' [] ∧ Fields s'.isFirstParam machine fields := by
  obtain ⟨first, hbetween, hfields⟩ := h
  have hscan : ∀ b, ¬ keyOpen <:+ b →
      ({ s with xmlTagBuffer := b } : Xml).scanBuffer lib funcName tools =
        ({ s with xmlTagBuffer := b }, some []) := by
    intro b hb
    rcases hbetween.state with hstate | hstate <;> simp only [hstate] <;> exact if_neg hb
  have hout : ∀ u, u <+: e → u ≠ [] → ¬ keyOpen <:+ [] ++ u := by
    intro u hu _ hin
    have habsent : ¬ keyOpen <:+: eotToken := by decide
    exact habsent (hin.isInfix.trans (hu.trans he).isInfix)
  have hcollect := feeds_collect (s := s) (b := []) hscan hout
  have hs : ({ s with xmlTagBuffer := [] } : Xml) = s := by rw [← hbetween.buffer]
  rw [hs] at hcollect
  refine ⟨_, hcollect, ?_⟩
  have hfirst : ({ s with xmlTagBuffer := [] ++ e } : Xml).isFirstParam = first := hbetween.first
  rwa [hfirst]

theorem validUtf8_eot {e : List Char} (he : e <+: eotToken) : ValidUtf8 e := by
  have hall : ∀ n ≤ 12, ValidUtf8 (eotToken.take n) := by decide
  rw [List.prefix_iff_eq_take.1 he]
  exact hall e.length he.length_le

/-- A string is being read. -/
def Unfinished (s : Xml) (machine : State) : Prop :=
  s.isFirstParam = false ∧ machine.stack ≠ [] ∧ machine.inText

theorem feeds_eot_swallowing (hlib : lib.Lawful) {e : List Char} (he : e <+: eotToken)
    (h : Swallowing s machine fields) :
    ∃ s' o machine', Feeds lib funcName tools s e s' o ∧ run machine o = some machine' ∧
      Unfinished s' machine' := by
  obtain ⟨key, x, out, hread, hutf8, htag, hne, hrun⟩ := h
  have hopen : Unclosed (tagRun [] x) e := by
    have habsent : ¬ valClose <:+: eotToken := by decide
    rw [htag]
    exact unclosed_of_absent fun hin => habsent (hin.trans he.isInfix)
  have hvalid := validUtf8_append hutf8 (validUtf8_eot he)
  obtain ⟨s', o, hfeeds, hread'⟩ : ∃ s' o, Feeds lib funcName tools s e s' o ∧
      Reading true s' (x ++ e) (out ++ o) := hread.feeds hlib (fun _ => ⟨[], hvalid⟩) hopen
  obtain ⟨machine', hmachine, hstack, hcases⟩ := hread'.run_open [.field fields key]
  refine ⟨s', o, machine', hfeeds, ?_, hread'.notFirst, by simp [hstack], ?_⟩
  · rw [← hmachine, run_append _ out, hrun]
    rfl
  · rcases hcases with ⟨-, htext⟩ | ⟨hstarted, -⟩
    · exact htext
    · -- the value has been started, since its text is longer than what the buffer holds
      have hbuffer := congrArg List.length (hread'.fresh hstarted).1
      have hlen := (tagRun_suffix [] e).length_le
      have hpos := List.length_pos_iff.2 hne
      rw [hread'.tag, tagRun_append, htag, length_append] at hbuffer
      rw [nil_append] at hlen
      omega

/-- A call as the model writes it. -/
def callText (name : List Char) (pairs : List (List Char × List Char)) : List Char :=
  botToken ++ (name ++ (argsText pairs ++ eotToken))

theorem eotToken_head : eotToken.head? = some '<' := by decide

theorem argsText_head (h : pairs ≠ []) : ∃ rest, argsText pairs = keyOpen ++ rest := by
  cases pairs with
  | nil => exact absurd rfl h
  | cons pair pairs =>
      refine ⟨pair.1 ++ (keyClose ++ (valOpen ++ (pair.2 ++ valClose))) ++ argsText pairs, ?_⟩
      rfl

theorem not_straddles_args {p : List Char} (hp : IsTag p) (hhead : p.head? = some '<')
    (pairs : List (List Char × List Char)) (x rest : List Char)
    (hrest : rest = [] ∨ rest.head? = some '<') : ¬ Straddles p x (argsText pairs ++ rest) := by
  have hcons : ∀ l : List Char, l.head? = some '<' → ¬ Straddles p x l := by
    intro l hl
    cases l with
    | nil => cases hl
    | cons c l =>
        cases hl
        exact hp.not_straddles hhead
  by_cases hpairs : pairs = []
  · subst hpairs
    rcases hrest with rfl | hrest
    · exact not_straddles_nil
    · exact hcons rest hrest
  · obtain ⟨more, hargs⟩ := argsText_head hpairs
    refine hcons _ ?_
    rw [hargs]
    rfl

theorem not_infix_pairText {pair : List Char × List Char} (h : Argument pair) :
    ¬ eotToken <:+: pairText pair := by
  have helement : ¬ eotToken <:+: valOpen ++ (pair.2 ++ valClose) := by
    have habsent : ¬ eotToken <:+: valClose := by decide
    exact isTag_eotToken.not_infix_element eotToken_head (by decide) (by decide) h.value_eotToken
      habsent
  have hrest : ¬ eotToken <:+: keyClose ++ (valOpen ++ (pair.2 ++ valClose)) :=
    not_infix_append (by decide) helement (isTag_eotToken.not_straddles eotToken_head)
  exact isTag_eotToken.not_infix_element eotToken_head (by decide) (by decide) h.key_eotToken hrest

theorem not_infix_argsText (h : ∀ pair ∈ pairs, Argument pair) :
    ¬ eotToken <:+: argsText pairs := by
  induction pairs with
  | nil => decide
  | cons pair pairs ih =>
      refine not_infix_append (not_infix_pairText (h pair mem_cons_self))
        (ih fun q hq => h q (mem_cons_of_mem pair hq)) ?_
      have := not_straddles_args isTag_eotToken eotToken_head pairs (pairText pair) []
        (Or.inl rfl)
      rwa [append_nil] at this

structure Name (name : List Char) : Prop where
  keyOpen : ¬ keyOpen <:+: name
  eotToken : ¬ eotToken <:+: name

section

variable {name : List Char}

theorem not_infix_content (hname : Name name) (hpairs : ∀ pair ∈ pairs, Argument pair) :
    ¬ eotToken <:+: name ++ argsText pairs := by
  refine not_infix_append hname.eotToken (not_infix_argsText hpairs) ?_
  have := not_straddles_args isTag_eotToken eotToken_head pairs name [] (Or.inl rfl)
  rwa [append_nil] at this

/-- The first end tag is the one that ends the call. -/
theorem splitFirst_eot (hname : Name name) (hpairs : ∀ pair ∈ pairs, Argument pair) :
    splitFirst eotToken (name ++ (argsText pairs ++ eotToken)) =
      some (name ++ argsText pairs, []) := by
  have := isTag_eotToken.splitFirst (y := []) (not_infix_content hname hpairs)
  rwa [append_assoc] at this

theorem splitFirst_eot_of_lt (hname : Name name) (hpairs : ∀ pair ∈ pairs, Argument pair)
    {w : List Char} (hw : w <+: name ++ (argsText pairs ++ eotToken))
    (hne : w ≠ name ++ (argsText pairs ++ eotToken)) : splitFirst eotToken w = none := by
  rw [splitFirst_eq_none]
  rw [← append_assoc] at hw hne
  refine isTag_eotToken.not_infix_of_lt (not_infix_content hname hpairs) hw ?_
  exact lt_of_le_of_ne hw.length_le fun heq => hne (hw.eq_of_length heq)

theorem parseToolCallContent_begun (hname : Name name) {raw : List Char} (hraw : keyOpen <+: raw) :
    parseToolCallContent (name ++ raw) = (trimWhitespace name, raw) := by
  obtain ⟨rest, rfl⟩ := hraw
  rw [parseToolCallContent, isTag_keyOpen.splitFirst hname.keyOpen]

@[simp] theorem parseToolCallContent_absent {w : List Char} (h : ¬ keyOpen <:+: w) :
    parseToolCallContent w = (trimWhitespace w, []) := by
  rw [parseToolCallContent, splitFirst_eq_none.2 h]

theorem begun_or_absent (hname : Name name) {w : List Char}
    (hw : w <+: name ++ (argsText pairs ++ eotToken)) :
    (∃ raw, w = name ++ raw ∧ keyOpen <+: raw) ∨ ¬ keyOpen <:+: w := by
  by_cases hpairs : pairs = []
  · subst hpairs
    refine Or.inr fun hin => ?_
    have habsent : ¬ keyOpen <:+: name ++ ([] ++ eotToken) :=
      not_infix_append hname.keyOpen (by decide)
        (isTag_keyOpen.not_straddles (c := '<') (by decide))
    exact habsent (hin.trans hw.isInfix)
  · obtain ⟨rest, hargs⟩ := argsText_head hpairs
    rw [hargs, append_assoc, ← append_assoc] at hw
    rcases prefix_or_prefix_of_prefix hw (prefix_append (name ++ keyOpen) (rest ++ eotToken))
      with hshort | hlong
    · by_cases heq : w = name ++ keyOpen
      · exact Or.inl ⟨keyOpen, heq, prefix_refl _⟩
      · exact Or.inr (isTag_keyOpen.not_infix_of_lt hname.keyOpen hshort
          (lt_of_le_of_ne hshort.length_le fun hlen => heq (hshort.eq_of_length hlen)))
    · obtain ⟨more, rfl⟩ := hlong
      exact Or.inl ⟨keyOpen ++ more, append_assoc _ _ _, prefix_append _ _⟩

end

/-- Parsing the whole text finds the arguments. -/
theorem extractFor_argsText {fuel : Nat} (h : ∀ pair ∈ pairs, Argument pair)
    (hfuel : pairs.length < fuel) : extractFor fuel (argsText pairs) = pairs := by
  induction pairs generalizing fuel with
  | nil =>
      obtain ⟨fuel, rfl⟩ := Nat.exists_eq_succ_of_ne_zero (by omega : fuel ≠ 0)
      rfl
  | cons pair pairs ih =>
      obtain ⟨fuel, rfl⟩ := Nat.exists_eq_succ_of_ne_zero (by omega : fuel ≠ 0)
      have hpair := h pair mem_cons_self
      have htext : argsText (pair :: pairs) = keyOpen ++ (pair.1 ++ (keyClose ++
          (valOpen ++ (pair.2 ++ (valClose ++ argsText pairs))))) := by
        rw [argsText, flatMap_cons, pairText]
        simp only [append_assoc]
        rfl
      have hrest : extractFor fuel (argsText pairs) = pairs :=
        ih (fun q hq => h q (mem_cons_of_mem pair hq)) (by simpa using hfuel)
      rw [htext, extractFor, splitFirst_self isTag_keyOpen.ne_nil]
      dsimp only
      rw [isTag_keyClose.splitFirst hpair.key_keyClose]
      dsimp only
      rw [isTag_valOpen.splitFirst (x := keyClose) (by decide)]
      dsimp only
      rw [isTag_valClose.splitFirst hpair.value_valClose]
      dsimp only
      rw [hrest]
      -- a key that comes later stands behind the value
      split
      · rfl
      · rw [if_neg (by omega)]

theorem encodedEntries_insert {key : List Char} {value : Json D}
    {entries : List (List Char × Json D)} (hkey : ValidUtf8 key) (hvalue : encoded value)
    (h : encodedEntries entries) : encodedEntries (Json.insertEntry key value entries) := by
  induction entries with
  | nil => simp [Json.insertEntry, encodedEntries, hkey, hvalue]
  | cons entry entries ih =>
      simp only [encodedEntries, Bool.and_eq_true] at h
      rw [Json.insertEntry]
      split_ifs
      · simp [encodedEntries, hkey, hvalue, h]
      · simp [encodedEntries, hkey, hvalue, h]
      · simp [encodedEntries, ih h.2, h.1]

theorem encoded_convertToNumber {text : List Char} (h : ValidUtf8 text) :
    encoded (convertToNumber lib text) := by
  have hstring : encoded (.string text : Json D) := by simpa [encoded] using h
  unfold convertToNumber
  dsimp only
  split
  · cases lib.stodFront (trimWhitespace text) with
    | none => exact hstring
    | some x => rfl
  · cases stoll (trimWhitespace text) with
    | none => exact hstring
    | some n => rfl

theorem encoded_coerce {argType : List Char} {parsed : Json D} (h : encoded parsed) :
    encoded (coerce lib argType parsed) := by
  cases parsed with
  | string text =>
      rw [coerce]
      split
      · exact encoded_convertToNumber (by simpa [encoded] using h)
      · exact h
  | _ => exact h

theorem parseUnescaped_encoded (hlib : lib.Lawful) {t : List Char} {v : Json D}
    (h : parseUnescaped lib t = some v) : encoded v := by
  unfold parseUnescaped at h
  split at h
  · exact hlib.parse_encoded h
  · cases h

variable {argType value : List Char}

theorem parseArguments_encoded (hlib : lib.Lawful) (hutf8 : ValidUtf8 value)
    (hover : lib.overflows value = false) :
    ∃ v, parseArguments lib value argType = some v ∧ encoded v := by
  unfold parseArguments
  cases hv : lib.parse value with
  | some v => exact ⟨_, rfl, encoded_coerce (hlib.parse_encoded hv)⟩
  | none =>
      simp only [hover]
      cases hu : parseUnescaped lib value with
      | some v => exact ⟨_, rfl, encoded_coerce (parseUnescaped_encoded hlib hu)⟩
      | none => exact ⟨_, rfl, by simpa [encoded] using hutf8⟩

theorem argumentValue_encoded (hlib : lib.Lawful) (hutf8 : ValidUtf8 value)
    (hover : lib.overflows value = false) :
    ∃ v, argumentValue lib argType value = some v ∧ encoded v := by
  obtain ⟨v, hv, henc⟩ : ∃ v, parseArguments lib value argType = some v ∧ encoded v :=
    parseArguments_encoded hlib hutf8 hover
  rw [argumentValue, hv]
  have hdump : ∃ w, (if argType = "string".toList then (lib.dump v).map Json.string else some v) =
      some w ∧ encoded w := by
    split
    · obtain ⟨text, htext⟩ := Option.isSome_iff_exists.1 (hlib.dump_isSome v henc)
      exact ⟨.string text, by rw [htext]; rfl, by simpa [encoded] using hlib.dump_utf8 htext⟩
    · exact ⟨v, rfl, henc⟩
  cases v with
  | string text => exact ⟨_, rfl, henc⟩
  | _ => exact hdump

theorem argumentValue_overflows (hlib : lib.Lawful) (hover : lib.overflows value) :
    argumentValue lib argType value = .none := by
  rw [argumentValue, parseArguments, hlib.parse_overflows hover]
  simp [hover]

theorem foldlM_argumentEntry (hlib : lib.Lawful) (h : ∀ pair ∈ pairs, Argument pair)
    (hover : ∀ pair ∈ pairs, lib.overflows (trimWhitespace pair.2) = false)
    {entries : List (List Char × Json D)} (hentries : encodedEntries entries) :
    ∃ result, pairs.foldlM (argumentEntry lib funcName tools) (Json.object entries) =
      some (.object result) ∧ encodedEntries result := by
  induction pairs generalizing entries with
  | nil => exact ⟨entries, rfl, hentries⟩
  | cons pair pairs ih =>
      have hpair := h pair mem_cons_self
      obtain ⟨v, hv, henc⟩ : ∃ v, argumentValue lib
          (getArgumentType funcName (trimWhitespace pair.1) tools) (trimWhitespace pair.2) =
          some v ∧ encoded v :=
        argumentValue_encoded hlib (validUtf8_trim hpair.value_utf8) (hover pair mem_cons_self)
      have hentry : argumentEntry lib funcName tools (.object entries) pair =
          some (.object (Json.insertEntry (trimWhitespace pair.1) v entries)) := by
        rw [argumentEntry, hv]
        rfl
      rw [foldlM_cons, hentry]
      exact ih (fun q hq => h q (mem_cons_of_mem pair hq))
        (fun q hq => hover q (mem_cons_of_mem pair hq))
        (encodedEntries_insert (validUtf8_trim hpair.key_utf8) henc hentries)

theorem foldlM_argumentEntry_overflows (hlib : lib.Lawful)
    (hover : ∃ pair ∈ pairs, lib.overflows (trimWhitespace pair.2)) (arguments : Json D) :
    pairs.foldlM (argumentEntry lib funcName tools) arguments = .none := by
  induction pairs generalizing arguments with
  | nil =>
      obtain ⟨pair, hpair, -⟩ := hover
      cases hpair
  | cons pair pairs ih =>
      rw [foldlM_cons]
      cases hentry : argumentEntry lib funcName tools arguments pair with
      | none => rfl
      | some next =>
          refine ih ?_ next
          obtain ⟨q, hq, hbad⟩ := hover
          rcases List.mem_cons.1 hq with rfl | hq
          · rw [argumentEntry, argumentValue_overflows hlib hbad] at hentry
            cases hentry
          · exact ⟨q, hq, hbad⟩

theorem length_le_argsText (pairs : List (List Char × List Char)) :
    pairs.length ≤ (argsText pairs).length := by
  induction pairs with
  | nil => exact Nat.le_refl 0
  | cons pair pairs ih =>
      rw [argsText, flatMap_cons, length_append, length_cons]
      have hpos : 0 < (pairText pair).length := by
        rw [pairText, length_append]
        exact Nat.add_pos_left (by decide) _
      change _ ≤ _ + (argsText pairs).length
      omega

theorem storeArguments_isSome (hlib : lib.Lawful) (h : ∀ pair ∈ pairs, Argument pair) :
    (storeArguments lib funcName (argsText pairs) tools).isSome ↔
      ∀ pair ∈ pairs, lib.overflows (trimWhitespace pair.2) = false := by
  have hextract : extractArgumentPairs (argsText pairs) = pairs := by
    exact extractFor_argsText h (Nat.lt_succ_of_le (length_le_argsText pairs))
  rw [storeArguments, hextract]
  by_cases hpairs : pairs = []
  · subst hpairs
    simp
  · rw [if_neg hpairs, parseArgumentPairs]
    by_cases hover : ∀ pair ∈ pairs, lib.overflows (trimWhitespace pair.2) = false
    · obtain ⟨result, hfold, henc⟩ : ∃ result,
          pairs.foldlM (argumentEntry lib funcName tools) (Json.object []) =
            some (.object result) ∧ encodedEntries result :=
        foldlM_argumentEntry hlib h hover rfl
      rw [hfold]
      exact iff_of_true (hlib.dump_isSome _ (by simpa [encoded] using henc)) hover
    · have hbad : ∃ pair ∈ pairs, lib.overflows (trimWhitespace pair.2) = true := by
        simpa using hover
      rw [foldlM_argumentEntry_overflows hlib hbad]
      exact iff_of_false (by simp) hover

end Xllm.FunctionCall.Glm47
