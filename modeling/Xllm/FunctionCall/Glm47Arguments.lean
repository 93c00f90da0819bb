import Xllm.FunctionCall.Glm47Values

/-!
# Arguments of GLM-4.7 calls

The pairs of a call are processed one after the other, and beside the state the JSON machine
reads what is written. Behind a pair whose value leaves the tag buffer empty, the machine
has read one more field. Otherwise the closing tag is swallowed, and the value goes on with
the next pair.
-/

namespace Xllm.FunctionCall.Glm47

open Text JsonText

variable {D : Type}

/-- A pair as it is written in a call. -/
def pairText (pair : List Char × List Char) : List Char :=
  keyOpen ++ (pair.1 ++ (keyClose ++ (valOpen ++ (pair.2 ++ valClose))))

def argsText (pairs : List (List Char × List Char)) : List Char := pairs.flatMap pairText

/-- The value of the key is written as a string. -/
def isText (funcName : List Char) (tools : List (JsonTool D)) (key : List Char) : Bool :=
  getValueType [] funcName key tools = "string".toList

structure Argument (pair : List Char × List Char) : Prop where
  key_utf8 : ValidUtf8 pair.1
  key_keyClose : ¬ keyClose <:+: pair.1
  key_eotToken : ¬ eotToken <:+: pair.1
  value_utf8 : ValidUtf8 pair.2
  value_valClose : ¬ valClose <:+: pair.2
  value_eotToken : ¬ eotToken <:+: pair.2

theorem isTag_keyOpen : IsTag keyOpen := ⟨'<', "arg_key>".toList, by decide, by decide⟩

theorem isTag_keyClose : IsTag keyClose := ⟨'<', "/arg_key>".toList, by decide, by decide⟩

theorem isTag_valOpen : IsTag valOpen := ⟨'<', "arg_value>".toList, by decide, by decide⟩

theorem isTag_valClose : IsTag valClose := ⟨'<', "/arg_value>".toList, by decide, by decide⟩

theorem isTag_eotToken : IsTag eotToken := ⟨'<', "/tool_call>".toList, by decide, by decide⟩

section

variable {lib : Library D} {funcName : List Char} {tools : List (JsonTool D)} {s s' : Xml}
  {t x : List Char}

theorem feeds_collect {tag : List Char}
    (hscan : ∀ b, ¬ tag <:+ b →
      { s with xmlTagBuffer := b }.scanBuffer lib funcName tools =
        ({ s with xmlTagBuffer := b }, some [])) {b : List Char}
    (hout : ∀ u, u <+: t → u ≠ [] → ¬ tag <:+ b ++ u) :
    Feeds lib funcName tools { s with xmlTagBuffer := b } t
      { s with xmlTagBuffer := b ++ t } [] := by
  induction t generalizing b with
  | nil =>
      rw [List.append_nil]
      exact Feeds.nil
  | cons c t ih =>
      have hfirst : Xml.feed { s with xmlTagBuffer := b } lib funcName tools c =
          ({ s with xmlTagBuffer := b ++ [c] }, some []) :=
        hscan (b ++ [c]) (hout [c] (List.cons_prefix_cons.2 ⟨rfl, List.nil_prefix⟩) (by simp))
      have hrest : ∀ u, u <+: t → u ≠ [] → ¬ tag <:+ b ++ [c] ++ u := by
        intro u hu _
        rw [← List.append_cons]
        exact hout (c :: u) (List.cons_prefix_cons.2 ⟨rfl, hu⟩) (by simp)
      rw [List.append_cons b c t]
      exact (Feeds.single hfirst).append (ih hrest)

theorem feeds_tag {tag o : List Char} (htag : IsTag tag) (hx : ¬ tag <:+: x)
    (hscan : ∀ b, ¬ tag <:+ b →
      { s with xmlTagBuffer := b }.scanBuffer lib funcName tools =
        ({ s with xmlTagBuffer := b }, some []))
    (hbuffer : s.xmlTagBuffer = [])
    (hend : { s with xmlTagBuffer := x ++ tag }.scanBuffer lib funcName tools =
      (s', some o)) :
    Feeds lib funcName tools s (x ++ tag) s' o := by
  obtain ⟨init, last, hinit⟩ : ∃ init last, x ++ tag = init ++ [last] :=
    ⟨_, _, (List.dropLast_append_getLast (by simp [htag.ne_nil])).symm⟩
  have hout : ∀ u, u <+: init → u ≠ [] → ¬ tag <:+ [] ++ u := by
    intro u hu _ hsuffix
    have hlt : u.length < (x ++ tag).length := by
      rw [hinit, List.length_append]
      exact Nat.lt_succ_of_le hu.length_le
    have hpre : u <+: x ++ tag := by
      rw [hinit]
      exact hu.trans (List.prefix_append init [last])
    exact htag.not_infix_of_lt hx hpre hlt hsuffix.isInfix
  have hcollect := feeds_collect (s := s) (b := []) hscan hout
  have hs : ({ s with xmlTagBuffer := [] } : Xml) = s := by rw [← hbuffer]
  rw [hs] at hcollect
  have hlast : Xml.feed { s with xmlTagBuffer := init } lib funcName tools last = (s', some o) := by
    rw [← hend, hinit]
    rfl
  rw [hinit]
  exact hcollect.append (Feeds.single hlast)

def separator (first : Bool) : List Char := if first then "\x7b".toList else ", ".toList

theorem feeds_keyOpen {first : Bool} (h : Between s first) :
    ∃ s', Feeds lib funcName tools s keyOpen s' (separator first) ∧ s'.streamState = .inKey ∧
      s'.xmlTagBuffer = [] ∧ s'.utf8Buffer = [] ∧ s'.isFirstParam = false := by
  have hscan : ∀ b, ({ s with xmlTagBuffer := b } : Xml).scanBuffer lib funcName tools =
      if keyOpen <:+ b then
        ({ s with
            streamState := .inKey
            currentKey := []
            xmlTagBuffer := []
            isFirstParam := false },
          some (if s.isFirstParam then "\x7b".toList else ", ".toList))
      else ({ s with xmlTagBuffer := b }, some []) := by
    intro b
    rw [Xml.scanBuffer]
    rcases h.state with hstate | hstate <;> simp only [hstate]
  refine ⟨{ s with
      streamState := .inKey
      currentKey := []
      xmlTagBuffer := []
      isFirstParam := false }, ?_, rfl, rfl, h.utf8, rfl⟩
  rw [← List.nil_append keyOpen]
  refine feeds_tag isTag_keyOpen (by decide) (fun b hb => ?_) h.buffer ?_
  · rw [hscan]
    exact if_neg hb
  · rw [hscan, ← h.first]
    exact if_pos (List.suffix_append [] keyOpen)

theorem utf8Run_blank {due due' : List (Nat × Nat)} {t : List Char}
    (hblank : solid whitespace t = 0) (h : utf8Run due t = some due') : due' = due := by
  induction t generalizing due with
  | nil => exact (Option.some.inj h).symm
  | cons c t ih =>
      have hc : whitespace c = true := solid_eq_zero.1 hblank c List.mem_cons_self
      have ht : solid whitespace t = 0 :=
        solid_eq_zero.2 fun d hd => solid_eq_zero.1 hblank d (List.mem_cons_of_mem c hd)
      have hlow : c.toNat < 0x80 ∧ JsonText.continuation c = false := by
        simp only [whitespace, List.mem_cons, List.not_mem_nil, or_false, decide_eq_true_eq] at hc
        rcases hc with rfl | rfl | rfl | rfl <;> decide
      obtain ⟨next, hnext, hrest⟩ := Option.bind_eq_some_iff.1 h
      cases due with
      | nil =>
          rw [utf8Step, tails, if_pos hlow.1] at hnext
          cases hnext
          exact ih ht hrest
      | cons range due =>
          rw [(utf8Step_cons hnext).1] at hlow
          exact absurd hlow.2 (by decide)

theorem validUtf8_trim {t : List Char} (h : ValidUtf8 t) : ValidUtf8 (trimWhitespace t) := by
  obtain ⟨l, r, ht, hl, hr⟩ := exists_trim whitespace t
  rw [ht, List.append_assoc, ValidUtf8, utf8Run_append] at h
  obtain ⟨due, hdue, hrest⟩ := Option.bind_eq_some_iff.1 h
  rw [utf8Run_blank hl hdue, utf8Run_append] at hrest
  obtain ⟨due', hdue', hlast⟩ := Option.bind_eq_some_iff.1 hrest
  rw [ValidUtf8, trimWhitespace, hdue', utf8Run_blank hr hlast]

variable {key : List Char}

theorem feeds_key (hlib : lib.Lawful) (hutf8 : ValidUtf8 key) (hclose : ¬ keyClose <:+: key)
    (hstate : s.streamState = .inKey) (hbuffer : s.xmlTagBuffer = []) :
    Feeds lib funcName tools s (key ++ keyClose)
      { s with
        currentKey := trimWhitespace key
        xmlTagBuffer := []
        streamState := .waitingValue }
      (quote (trimWhitespace key) ++ ": ".toList) := by
  have hscan : ∀ b, ({ s with xmlTagBuffer := b } : Xml).scanBuffer lib funcName tools =
      if keyClose <:+ b then
        ({ s with
            currentKey := trimWhitespace (b.take (b.length - keyClose.length))
            xmlTagBuffer := []
            streamState := .waitingValue },
          (lib.dump (.string (trimWhitespace (b.take (b.length - keyClose.length))))).map
            fun text => text ++ ": ".toList)
      else ({ s with xmlTagBuffer := b }, some []) := by
    intro b
    rw [Xml.scanBuffer]
    simp only [hstate]
  refine feeds_tag isTag_keyClose hclose (fun b hb => ?_) hbuffer ?_
  · rw [hscan]
    exact if_neg hb
  · have hkey : (key ++ keyClose).take ((key ++ keyClose).length - keyClose.length) = key := by
      rw [List.length_append, Nat.add_sub_cancel, List.take_left]
    have hend := hscan (key ++ keyClose)
    rw [if_pos (List.suffix_append key keyClose), hkey, hlib.dump_string,
      if_pos (validUtf8_trim hutf8)] at hend
    exact hend

theorem valueType_getValueType {funcName key : List Char} {tools : List (JsonTool D)}
    (h : s.cachedValueType = getValueType [] funcName key tools) :
    decide (s.valueType = "string".toList) = isText funcName tools key := by
  have hne : getValueType [] funcName key tools ≠ [] := by
    have htype : getValueType [] funcName key tools =
        if getArgumentType funcName key tools ≠ [] then getArgumentType funcName key tools
        else "string".toList := rfl
    rw [htype]
    split
    · assumption
    · decide
  rw [Xml.valueType, h, if_neg hne]
  rfl

theorem feeds_valOpen (hstate : s.streamState = .waitingValue) (hbuffer : s.xmlTagBuffer = [])
    (hutf8 : s.utf8Buffer = []) (hfirst : s.isFirstParam = false) :
    ∃ s', Feeds lib funcName tools s valOpen s' [] ∧
      Reading (isText funcName tools s.currentKey) s' [] [] := by
  have hscan : ∀ b, ({ s with xmlTagBuffer := b } : Xml).scanBuffer lib funcName tools =
      if valOpen <:+ b then
        ({ s with
            streamState := .inValue
            currentValue := []
            xmlTagBuffer := []
            valueStarted := false
            cachedValueType := getValueType [] funcName s.currentKey tools },
          some [])
      else ({ s with xmlTagBuffer := b }, some []) := by
    intro b
    rw [Xml.scanBuffer]
    simp only [hstate]
  refine ⟨{ s with
      streamState := .inValue
      currentValue := []
      xmlTagBuffer := []
      valueStarted := false
      cachedValueType := getValueType [] funcName s.currentKey tools }, ?_, ?_⟩
  · rw [← List.nil_append valOpen]
    refine feeds_tag isTag_valOpen (by decide) (fun b hb => ?_) hbuffer ?_
    · rw [hscan]
      exact if_neg hb
    · rw [hscan]
      exact if_pos (List.suffix_append [] valOpen)
  · refine ⟨rfl, hfirst, valueType_getValueType rfl, rfl, by decide, fun _ => ⟨rfl, hutf8, rfl⟩, [],
      ?_, ?_⟩
    · simp [hutf8]
    · unfold Written
      split
      · exact ⟨rfl, rfl⟩
      · exact ⟨rfl, hutf8⟩

/-- The front of a pair: its key and the tag that opens the value. -/
theorem feeds_pair_front (hlib : lib.Lawful) {first : Bool} (h : Between s first)
    (hutf8 : ValidUtf8 key) (hclose : ¬ keyClose <:+: key) :
    ∃ s', Feeds lib funcName tools s (keyOpen ++ (key ++ (keyClose ++ valOpen))) s'
        (separator first ++ (quote (trimWhitespace key) ++ ": ".toList)) ∧
      Reading (isText funcName tools (trimWhitespace key)) s' [] [] := by
  obtain ⟨s₁, hopen, hstate, hbuffer, hheld, hfirst⟩ :
      ∃ s₁, Feeds lib funcName tools s keyOpen s₁ (separator first) ∧ s₁.streamState = .inKey ∧
        s₁.xmlTagBuffer = [] ∧ s₁.utf8Buffer = [] ∧ s₁.isFirstParam = false := feeds_keyOpen h
  obtain ⟨s', hval, hread⟩ : ∃ s', Feeds lib funcName tools
      { s₁ with
        currentKey := trimWhitespace key
        xmlTagBuffer := []
        streamState := .waitingValue } valOpen s' [] ∧
      Reading (isText funcName tools (trimWhitespace key)) s' [] [] :=
    feeds_valOpen rfl rfl hheld hfirst
  refine ⟨s', ?_, hread⟩
  have hall := hopen.append ((feeds_key hlib hutf8 hclose hstate hbuffer).append hval)
  rw [List.append_nil, List.append_assoc key] at hall
  exact hall

def Fields (first : Bool) (machine : State) (fields : List (List Char × Value)) : Prop :=
  if first then machine = ⟨[], .value false⟩ ∧ fields = []
  else ∃ read key mode v, machine = ⟨[.field read key], mode⟩ ∧ mode.value? = some v ∧
    fields = read ++ [(key, v)]

variable {first : Bool} {machine machine' : State} {fields : List (List Char × Value)}

theorem Fields.run_key (h : Fields first machine fields) (hkey : ValidUtf8 key) :
    run machine (separator first ++ (quote key ++ ": ".toList)) =
      some ⟨[.field fields key], .value false⟩ := by
  have hseparator : run machine (separator first) = some ⟨[], .key fields first⟩ := by
    cases first with
    | true =>
        obtain ⟨rfl, rfl⟩ := h
        rfl
    | false =>
        obtain ⟨read, key, mode, v, rfl, hv, rfl⟩ := h
        exact run_comma hv
  rw [run_append, hseparator, Option.bind_some, run_append, run_quote_key hkey]
  rfl

theorem fields_value (fields : List (List Char × Value)) (key : List Char) {t : List Char}
    {v : Value} (ht : parse t = some v) :
    ∃ machine', run ⟨[.field fields key], .value false⟩ t = some machine' ∧
      Fields false machine' (fields ++ [(key, v)]) := by
  obtain ⟨mode, hrun, hv⟩ := run_value [.field fields key] ht
  exact ⟨_, hrun, fields, key, mode, v, rfl, hv, rfl⟩

theorem Fields.run_close (h : Fields false machine fields) :
    run machine ['\x7d'] = some ⟨[], .done (.object fields)⟩ := by
  obtain ⟨read, key, mode, v, rfl, hv, rfl⟩ := h
  exact JsonText.run_close hv

theorem Reading.run_open {x out : List Char} (stack : List Frame) (h : Reading true s x out) :
    ∃ machine, run ⟨stack, .value false⟩ out = some machine ∧ machine.stack = stack ∧
      ((s.valueStarted = true ∧ machine.inText = true) ∨
        (s.valueStarted = false ∧ machine = ⟨stack, .value false⟩)) := by
  obtain ⟨w, -, hwritten⟩ := h.written
  obtain ⟨hw, rfl⟩ := hwritten
  cases hstarted : s.valueStarted with
  | false => exact ⟨⟨stack, .value false⟩, rfl, rfl, Or.inr ⟨rfl, rfl⟩⟩
  | true =>
      have hread := readString_escape (x := []) hw
      refine ⟨⟨stack, .inString w (.text [])⟩, ?_, rfl, Or.inl ⟨rfl, rfl⟩⟩
      exact run_inString hread

def Meant (funcName : List Char) (tools : List (JsonTool D)) (key text : List Char)
    (value : Value) : Prop :=
  if isText funcName tools key then value = .string text else parse text = some value

/-- All fields have been read, and the state is between two pairs. -/
def Closed (s : Xml) (machine : State) (fields : List (List Char × Value)) : Prop :=
  ∃ first, Between s first ∧ Fields first machine fields

/-- A value whose closing tag has been swallowed is read. -/
def Swallowing (s : Xml) (machine : State) (fields : List (List Char × Value)) : Prop :=
  ∃ key x out, Reading true s x out ∧ ValidUtf8 x ∧ tagRun [] x = [] ∧ x ≠ [] ∧
    run ⟨[.field fields key], .value false⟩ out = some machine

theorem valClose_plain : valClose.all plain := by decide

@[simp] theorem tagRun_of_parse {v : List Char} (h : (parse v).isSome) : tagRun [] v = [] := by
  by_contra hne
  have hpre : tagRun [] v <+: valClose := tagRun_begins List.nil_prefix v
  have hplain : (tagRun [] v).all plain :=
    List.all_eq_true.2 fun c hc => List.all_eq_true.1 valClose_plain c (hpre.subset hc)
  obtain ⟨y, hy⟩ := tagRun_suffix [] v
  cases htag : tagRun [] v with
  | nil => exact hne htag
  | cons c rest =>
      rw [htag] at hpre hy hplain
      have hc : c = '<' := by
        have hvalClose : valClose = '<' :: "/arg_value>".toList := by decide
        rw [hvalClose, List.cons_prefix_cons] at hpre
        exact hpre.1
      rw [List.nil_append] at hy
      rw [List.all_cons, Bool.and_eq_true] at hplain
      rw [← hy, hc, parse_angle hplain.2] at h
      cases h

theorem Reading.swallow (hlib : lib.Lawful) {x out : List Char} (h : Reading true s x out)
    (hutf8 : ValidUtf8 x) (hbegun : tagRun [] x ≠ []) :
    ∃ s' o, Feeds lib funcName tools s valClose s' o ∧
      Reading true s' (x ++ valClose) (out ++ o) ∧ tagRun [] (x ++ valClose) = [] := by
  have htag : tagRun [] x <+: valClose := tagRun_begins List.nil_prefix x
  obtain ⟨hrun, hopen⟩ := tagRun_valClose_of_begun htag h.unclosed hbegun
  have hvalid : ∃ due, utf8Run [] (x ++ valClose) = some due := by
    refine ⟨[], ?_⟩
    rw [utf8Run_append, hutf8]
    decide
  obtain ⟨s', o, hfeeds, hread⟩ : ∃ s' o, Feeds lib funcName tools s valClose s' o ∧
      Reading true s' (x ++ valClose) (out ++ o) := h.feeds hlib (fun _ => hvalid) hopen
  refine ⟨s', o, hfeeds, hread, ?_⟩
  rw [tagRun_append, hrun]

theorem validUtf8_append {t u : List Char} (ht : ValidUtf8 t) (hu : ValidUtf8 u) :
    ValidUtf8 (t ++ u) := by
  rw [ValidUtf8, utf8Run_append, ht]
  exact hu

@[simp] theorem tagRun_valOpen (t : List Char) : tagRun [] (t ++ valOpen) = [] := by
  -- a buffer that ends with the last byte of `<arg_value>` would be the closing tag
  by_contra hne
  have hpre : tagRun [] (t ++ valOpen) <+: valClose := tagRun_begins List.nil_prefix _
  have hsuffix : tagRun [] (t ++ valOpen) <:+ t ++ valOpen := tagRun_suffix [] _
  have hlast : (tagRun [] (t ++ valOpen)).getLast? = some '>' := by
    obtain ⟨y, hy⟩ := hsuffix
    have hend := congrArg List.getLast? hy
    rw [List.getLast?_append_of_ne_nil _ hne, List.getLast?_append_of_ne_nil _ (by decide)] at hend
    exact hend
  have hall : ∀ n < 12, (valClose.take n).getLast? ≠ some '>' := by decide
  have hclose : tagRun [] (t ++ valOpen) = valClose := by
    refine hpre.eq_of_length_le (Nat.le_of_not_lt fun hlt => ?_)
    rw [List.prefix_iff_eq_take.1 hpre] at hlast
    exact hall _ hlt hlast
  rw [hclose] at hsuffix
  have hopen : valOpen <:+ valClose :=
    List.suffix_of_suffix_length_le (List.suffix_append t valOpen) hsuffix (by decide)
  exact absurd hopen (by decide)

/-- One argument, behind a closed one. -/
theorem feeds_pair_closed (hlib : lib.Lawful) {pair : List Char × List Char} (hpair : Argument pair)
    (hjson : isText funcName tools (trimWhitespace pair.1) = false → (parse pair.2).isSome)
    (h : Closed s machine fields) :
    ∃ s' o machine', Feeds lib funcName tools s (pairText pair) s' o ∧
      run machine o = some machine' ∧
      ((tagRun [] pair.2 = [] ∧ ∃ value front,
          Meant funcName tools (trimWhitespace pair.1) pair.2 value ∧
          o = front ++ valueText (isText funcName tools (trimWhitespace pair.1)) pair.2 ∧
          Closed s' machine' (fields ++ [(trimWhitespace pair.1, value)])) ∨
        (tagRun [] pair.2 ≠ [] ∧ Swallowing s' machine' fields)) := by
  obtain ⟨first, hbetween, hfields⟩ := h
  obtain ⟨s₁, hfront, hread⟩ : ∃ s₁, Feeds lib funcName tools s
      (keyOpen ++ (pair.1 ++ (keyClose ++ valOpen))) s₁
      (separator first ++ (quote (trimWhitespace pair.1) ++ ": ".toList)) ∧
      Reading (isText funcName tools (trimWhitespace pair.1)) s₁ [] [] :=
    feeds_pair_front hlib hbetween hpair.key_utf8 hpair.key_keyClose
  have hkey := hfields.run_key (validUtf8_trim hpair.key_utf8)
  have hopen : Unclosed (tagRun [] []) pair.2 := unclosed_of_absent hpair.value_valClose
  obtain ⟨s₂, o₂, hvalue, hread₂⟩ : ∃ s₂ o₂, Feeds lib funcName tools s₁ pair.2 s₂ o₂ ∧
      Reading (isText funcName tools (trimWhitespace pair.1)) s₂ ([] ++ pair.2) ([] ++ o₂) :=
    hread.feeds hlib (fun _ => ⟨[], hpair.value_utf8⟩) hopen
  have htext : pairText pair =
      keyOpen ++ (pair.1 ++ (keyClose ++ valOpen)) ++ (pair.2 ++ valClose) := by
    simp only [pairText, List.append_assoc]
  rw [htext]
  by_cases htag : tagRun [] pair.2 = []
  · -- the closing tag is recognised
    have hraw : isText funcName tools (trimWhitespace pair.1) = false → pair.2 ≠ [] := by
      intro hraw hnil
      have := hjson hraw
      rw [hnil] at this
      exact absurd this (by decide)
    obtain ⟨s', o', hclose, hbetween', hout⟩ : ∃ s' o', Feeds lib funcName tools s₂ valClose s' o' ∧
        Between s' false ∧
        o₂ ++ o' = valueText (isText funcName tools (trimWhitespace pair.1)) pair.2 :=
      hread₂.close hlib htag (fun _ => hpair.value_utf8) hraw
    obtain ⟨value, hmeant, hparse⟩ : ∃ value,
        Meant funcName tools (trimWhitespace pair.1) pair.2 value ∧
        parse (valueText (isText funcName tools (trimWhitespace pair.1)) pair.2) = some value := by
      unfold Meant valueText
      cases hkind : isText funcName tools (trimWhitespace pair.1) with
      | true => exact ⟨.string pair.2, rfl, parse_quote hpair.value_utf8⟩
      | false =>
          obtain ⟨value, hvalue⟩ := Option.isSome_iff_exists.1 (hjson hkind)
          exact ⟨value, hvalue, hvalue⟩
    obtain ⟨machine', hrun, hfields'⟩ := fields_value fields (trimWhitespace pair.1) hparse
    refine ⟨s', _, machine', hfront.append (hvalue.append hclose), ?_, Or.inl ⟨htag, value,
      separator first ++ (quote (trimWhitespace pair.1) ++ ": ".toList), hmeant, ?_, false,
      hbetween', hfields'⟩⟩
    · rw [run_append, hkey, Option.bind_some, hout, hrun]
    · rw [hout]
  · -- it is swallowed, and the type is a string since JSON texts do not end with a tag
    have hkind : isText funcName tools (trimWhitespace pair.1) = true := by
      by_contra hfalse
      exact htag (tagRun_of_parse (hjson (Bool.not_eq_true _ ▸ hfalse)))
    rw [hkind] at hread₂
    obtain ⟨s', o', hswallow, hread', hempty⟩ : ∃ s' o',
      Feeds lib funcName tools s₂ valClose s' o' ∧
        Reading true s' (pair.2 ++ valClose) (o₂ ++ o') ∧ tagRun [] (pair.2 ++ valClose) = [] :=
      hread₂.swallow hlib hpair.value_utf8 htag
    obtain ⟨machine', hrun, -⟩ := hread'.run_open [.field fields (trimWhitespace pair.1)]
    refine ⟨s', _, machine', hfront.append (hvalue.append hswallow), ?_, Or.inr ⟨htag,
      trimWhitespace pair.1, pair.2 ++ valClose, o₂ ++ o', hread',
      validUtf8_append hpair.value_utf8 (by decide), hempty,
      List.append_ne_nil_of_right_ne_nil _ (by decide), hrun⟩⟩
    rw [run_append, hkey, Option.bind_some, hrun]

theorem not_infix_front (hkey : ¬ valClose <:+: key) :
    ¬ valClose <:+: keyOpen ++ (key ++ (keyClose ++ valOpen)) := by
  have htail : ¬ valClose <:+: keyClose ++ valOpen := by decide
  exact isTag_valClose.not_infix_element (by decide) (by decide) (by decide) hkey htail

/-- One argument, when a tag was missed. -/
theorem feeds_pair_swallowing (hlib : lib.Lawful) {pair : List Char × List Char}
    (hpair : Argument pair) (hkey : ¬ valClose <:+: pair.1) (h : Swallowing s machine fields) :
    ∃ s' o machine', Feeds lib funcName tools s (pairText pair) s' o ∧
      run machine o = some machine' ∧
      ((∃ entry, Closed s' machine' (fields ++ [entry])) ∨ Swallowing s' machine' fields) := by
  obtain ⟨key, x, out, hread, hutf8, htag, hne, hrun⟩ := h
  let front := keyOpen ++ (pair.1 ++ (keyClose ++ valOpen))
  have hfront : tagRun [] front = [] := by
    have := tagRun_valOpen (keyOpen ++ (pair.1 ++ keyClose))
    rwa [List.append_assoc, List.append_assoc] at this
  have hvalid : ValidUtf8 (x ++ (front ++ pair.2)) :=
    validUtf8_append hutf8 (validUtf8_append (validUtf8_append (by decide)
      (validUtf8_append hpair.key_utf8 (by decide))) hpair.value_utf8)
  have hopen : Unclosed (tagRun [] x) (front ++ pair.2) := by
    rw [htag, unclosed_append, hfront]
    exact ⟨unclosed_of_absent (not_infix_front hkey),
      unclosed_of_absent hpair.value_valClose⟩
  have hbuffer : tagRun [] (x ++ (front ++ pair.2)) = tagRun [] pair.2 := by
    rw [tagRun_append, htag, tagRun_append, hfront]
  obtain ⟨s₁, o₁, hfeeds, hread₁⟩ : ∃ s₁ o₁, Feeds lib funcName tools s (front ++ pair.2) s₁ o₁ ∧
      Reading true s₁ (x ++ (front ++ pair.2)) (out ++ o₁) :=
    hread.feeds hlib (fun _ => ⟨[], hvalid⟩) hopen
  have htext : pairText pair = front ++ pair.2 ++ valClose := by
    simp only [pairText, front, List.append_assoc]
  rw [htext]
  by_cases hclose : tagRun [] pair.2 = []
  · rw [hclose] at hbuffer
    obtain ⟨s', o', hlast, hbetween, hout⟩ : ∃ s' o', Feeds lib funcName tools s₁ valClose s' o' ∧
        Between s' false ∧ out ++ o₁ ++ o' = valueText true (x ++ (front ++ pair.2)) :=
      hread₁.close hlib hbuffer (fun _ => hvalid) (fun hfalse => absurd hfalse (by decide))
    obtain ⟨machine', hmachine, hfields⟩ := fields_value fields key (parse_quote hvalid)
    refine ⟨s', o₁ ++ o', machine', hfeeds.append hlast, ?_, Or.inl ⟨_, false, hbetween, hfields⟩⟩
    rw [← hmachine]
    change _ = run _ (valueText true (x ++ (front ++ pair.2)))
    rw [← hout, List.append_assoc, run_append _ out, hrun]
    rfl
  · obtain ⟨s', o', hlast, hread', hempty⟩ : ∃ s' o', Feeds lib funcName tools s₁ valClose s' o' ∧
        Reading true s' (x ++ (front ++ pair.2) ++ valClose) (out ++ o₁ ++ o') ∧
        tagRun [] (x ++ (front ++ pair.2) ++ valClose) = [] :=
      hread₁.swallow hlib hvalid (by rwa [hbuffer])
    obtain ⟨machine', hmachine, -⟩ := hread'.run_open [.field fields key]
    refine ⟨s', o₁ ++ o', machine', hfeeds.append hlast, ?_, Or.inr ⟨key, _, _, hread',
      validUtf8_append hvalid (by decide), hempty,
      List.append_ne_nil_of_right_ne_nil _ (by decide), hmachine⟩⟩
    rw [← hmachine, List.append_assoc, run_append _ out, hrun]
    rfl

def FieldOf (funcName : List Char) (tools : List (JsonTool D)) (pair : List Char × List Char)
    (field : List Char × Value) : Prop :=
  field.1 = trimWhitespace pair.1 ∧
    Meant funcName tools (trimWhitespace pair.1) pair.2 field.2

variable {pairs : List (List Char × List Char)}

def Arguments (funcName : List Char) (tools : List (JsonTool D))
    (pairs : List (List Char × List Char)) : Prop :=
  ∀ pair ∈ pairs, Argument pair ∧
    (isText funcName tools (trimWhitespace pair.1) = false → (parse pair.2).isSome)

theorem feeds_args_regular (hlib : lib.Lawful) (hargs : Arguments funcName tools pairs)
    (hregular : ∀ pair ∈ pairs, tagRun [] pair.2 = []) (h : Closed s machine fields) :
    ∃ s' o machine' read, Feeds lib funcName tools s (argsText pairs) s' o ∧
      run machine o = some machine' ∧ Closed s' machine' (fields ++ read) ∧
      List.Forall₂ (FieldOf funcName tools) pairs read ∧
      ∀ pair ∈ pairs.getLast?, ∃ front,
        o = front ++ valueText (isText funcName tools (trimWhitespace pair.1)) pair.2 := by
  induction pairs generalizing s machine fields with
  | nil =>
      refine ⟨s, [], machine, [], Feeds.nil, rfl, ?_, List.Forall₂.nil, ?_⟩
      · rwa [List.append_nil]
      · exact fun pair hpair => absurd hpair (by simp)
  | cons pair pairs ih =>
      obtain ⟨hpair, hjson⟩ := hargs pair List.mem_cons_self
      obtain ⟨s₁, o₁, machine₁, hfeeds, hrun, hcases⟩ :
          ∃ s₁ o₁ machine₁, Feeds lib funcName tools s (pairText pair) s₁ o₁ ∧ _ :=
        feeds_pair_closed hlib hpair hjson h
      rcases hcases with ⟨-, value, front, hmeant, ho, hclosed⟩ | ⟨hbad, -⟩
      · obtain ⟨s', o', machine', read, hfeeds', hrun', hclosed', hread, hlast⟩ :=
          ih (fun q hq => hargs q (List.mem_cons_of_mem pair hq))
            (fun q hq => hregular q (List.mem_cons_of_mem pair hq)) hclosed
        refine ⟨s', o₁ ++ o', machine', (trimWhitespace pair.1, value) :: read,
          hfeeds.append hfeeds', ?_, ?_, List.Forall₂.cons ⟨rfl, hmeant⟩ hread, ?_⟩
        · rw [run_append, hrun]
          exact hrun'
        · rwa [List.append_assoc] at hclosed'
        · intro q hq
          cases pairs with
          | nil =>
              cases hq
              cases hfeeds'
              exact ⟨front, (List.append_nil o₁).trans ho⟩
          | cons next pairs =>
              obtain ⟨front', hfront⟩ := hlast q hq
              exact ⟨o₁ ++ front', by rw [hfront, List.append_assoc]⟩
      · exact absurd (hregular pair List.mem_cons_self) hbad

/-- Fewer than `n` fields have been read or are going to be. -/
def Short (s : Xml) (machine : State) (n : Nat) : Prop :=
  ∃ fields, fields.length < n ∧ (Closed s machine fields ∨ Swallowing s machine fields)

theorem feeds_args_short (hlib : lib.Lawful) (hargs : Arguments funcName tools pairs)
    (hkeys : ∀ pair ∈ pairs, ¬ valClose <:+: pair.1) {n : Nat} (h : Short s machine n) :
    ∃ s' o machine', Feeds lib funcName tools s (argsText pairs) s' o ∧
      run machine o = some machine' ∧ Short s' machine' (n + pairs.length) := by
  induction pairs generalizing s machine n with
  | nil => exact ⟨s, [], machine, Feeds.nil, rfl, h⟩
  | cons pair pairs ih =>
      obtain ⟨hpair, hjson⟩ := hargs pair List.mem_cons_self
      have hstep : ∃ s₁ o₁ machine₁, Feeds lib funcName tools s (pairText pair) s₁ o₁ ∧
          run machine o₁ = some machine₁ ∧ Short s₁ machine₁ (n + 1) := by
        obtain ⟨fields, hlen, hclosed | hswallowing⟩ := h
        · obtain ⟨s₁, o₁, machine₁, hfeeds, hrun, ⟨-, value, front, -, -, hclosed'⟩ |
            ⟨-, hswallow⟩⟩ :
              ∃ s₁ o₁ machine₁, Feeds lib funcName tools s (pairText pair) s₁ o₁ ∧ _ :=
            feeds_pair_closed hlib hpair hjson hclosed
          · refine ⟨s₁, o₁, machine₁, hfeeds, hrun, _, ?_, Or.inl hclosed'⟩
            rw [List.length_append, List.length_singleton]
            omega
          · exact ⟨s₁, o₁, machine₁, hfeeds, hrun, fields, by omega, Or.inr hswallow⟩
        · obtain ⟨s₁, o₁, machine₁, hfeeds, hrun, ⟨entry, hclosed'⟩ | hswallow⟩ :
              ∃ s₁ o₁ machine₁, Feeds lib funcName tools s (pairText pair) s₁ o₁ ∧ _ :=
            feeds_pair_swallowing hlib hpair (hkeys pair List.mem_cons_self) hswallowing
          · refine ⟨s₁, o₁, machine₁, hfeeds, hrun, _, ?_, Or.inl hclosed'⟩
            rw [List.length_append, List.length_singleton]
            omega
          · exact ⟨s₁, o₁, machine₁, hfeeds, hrun, fields, by omega, Or.inr hswallow⟩
      obtain ⟨s₁, o₁, machine₁, hfeeds, hrun, hshort⟩ := hstep
      obtain ⟨s', o', machine', hfeeds', hrun', hshort'⟩ :=
        ih (fun q hq => hargs q (List.mem_cons_of_mem pair hq))
          (fun q hq => hkeys q (List.mem_cons_of_mem pair hq)) hshort
      refine ⟨s', o₁ ++ o', machine', hfeeds.append hfeeds', ?_, ?_⟩
      · rw [run_append, hrun]
        exact hrun'
      · rwa [List.length_cons, Nat.add_comm pairs.length 1, ← Nat.add_assoc]

theorem feeds_args_irregular (hlib : lib.Lawful) (hargs : Arguments funcName tools pairs)
    (hkeys : ∀ pair ∈ pairs, ¬ valClose <:+: pair.1)
    (hbad : ∃ pair ∈ pairs, tagRun [] pair.2 ≠ []) (h : Closed s machine fields) :
    ∃ s' o machine', Feeds lib funcName tools s (argsText pairs) s' o ∧
      run machine o = some machine' ∧ Short s' machine' (fields.length + pairs.length) := by
  induction pairs generalizing s machine fields with
  | nil =>
      obtain ⟨pair, hpair, -⟩ := hbad
      cases hpair
  | cons pair pairs ih =>
      obtain ⟨hpair, hjson⟩ := hargs pair List.mem_cons_self
      have htail : Arguments funcName tools pairs :=
        fun q hq => hargs q (List.mem_cons_of_mem pair hq)
      have hkeys' : ∀ q ∈ pairs, ¬ valClose <:+: q.1 :=
        fun q hq => hkeys q (List.mem_cons_of_mem pair hq)
      obtain ⟨s₁, o₁, machine₁, hfeeds, hrun, hcases⟩ :
          ∃ s₁ o₁ machine₁, Feeds lib funcName tools s (pairText pair) s₁ o₁ ∧ _ :=
        feeds_pair_closed hlib hpair hjson h
      have hrest : ∃ s' o' machine', Feeds lib funcName tools s₁ (argsText pairs) s' o' ∧
          run machine₁ o' = some machine' ∧
          Short s' machine' (fields.length + 1 + pairs.length) := by
        rcases hcases with ⟨hgood, value, front, -, -, hclosed⟩ | ⟨-, hswallow⟩
        · have hlater : ∃ q ∈ pairs, tagRun [] q.2 ≠ [] := by
            obtain ⟨q, hq, hqbad⟩ := hbad
            rcases List.mem_cons.1 hq with rfl | hq
            · exact absurd hgood hqbad
            · exact ⟨q, hq, hqbad⟩
          have hnext := ih htail hkeys' hlater hclosed
          rwa [List.length_append] at hnext
        · exact feeds_args_short hlib htail hkeys' ⟨fields, Nat.lt_succ_self _, Or.inr hswallow⟩
      obtain ⟨s', o', machine', hfeeds', hrun', hshort⟩ := hrest
      refine ⟨s', o₁ ++ o', machine', hfeeds.append hfeeds', ?_, ?_⟩
      · rw [run_append, hrun]
        exact hrun'
      · rwa [List.length_cons, Nat.add_comm pairs.length 1, ← Nat.add_assoc]

end

end Xllm.FunctionCall.Glm47
