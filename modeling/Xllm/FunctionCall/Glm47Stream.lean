import Xllm.FunctionCall.Glm47Call

/-!
# Streaming of GLM-4.7 calls

A call is cut into chunks and followed by empty ones. `parse_streaming_increment` first
collects the start token, then the name, which it sends in a result of its own, and then
sends the arguments as far as they have arrived (`Progress`).

The fragments of the call are a JSON object with the arguments exactly when the call is
`Regular`.
-/

namespace Xllm.FunctionCall.Glm47

open Text JsonText List

variable {D : Type} {lib : Library D} {tools : List (JsonTool D)} {d d' : Detector}
  {name : List Char} {pairs : List (List Char × List Char)}

def fragments (toolIndex : Int) (result : StreamingParseResult) : List Char :=
  (result.calls.filter fun item => item.toolIndex = toolIndex).flatMap ToolCallItem.parameters

@[simp] theorem fragments_add (i : Int) (a b : StreamingParseResult) :
    fragments i (a + b) = fragments i a ++ fragments i b := by
  simp [fragments]

theorem fragments_text (i : Int) (t : List Char) : fragments i { normalText := t } = [] := rfl

theorem fragments_item (t : List Char) (calls : List ToolCallItem) :
    fragments d.currentToolId { calls := calls ++ d.item t } =
      fragments d.currentToolId { calls := calls } ++ t := by
  unfold Detector.item fragments
  split
  · rename_i hnil
    simp [hnil]
  · simp

/-- The detector waits for a call. -/
structure Idle (d : Detector) : Prop where
  buffer : d.buffer = []
  lastArguments : d.lastArguments = []
  currentToolNameSent : d.currentToolNameSent = false

@[simp] theorem firstCall_buffer (b : List Char) :
    ({ d with buffer := b } : Detector).firstCall = { d.firstCall with buffer := b } := by
  unfold Detector.firstCall
  split <;> rfl

theorem firstCall_ne (d : Detector) : d.firstCall.currentToolId ≠ -1 := by
  unfold Detector.firstCall
  split
  · change (0 : Int) ≠ -1
    decide
  · assumption

@[simp] theorem firstCall_of_ne (h : d.currentToolId ≠ -1) : d.firstCall = d := if_neg h

theorem Idle.firstCall (h : Idle d) : Idle d.firstCall := by
  unfold Detector.firstCall
  split
  · exact ⟨h.buffer, h.lastArguments, rfl⟩
  · exact h

/-- The call after its start token. -/
def bodyText (name : List Char) (pairs : List (List Char × List Char)) : List Char :=
  name ++ (argsText pairs ++ eotToken)

def namingState (d : Detector) (text : List Char) : Detector := { d.firstCall with buffer := text }

/-- The detector after the name has been sent, when `raw` has been rewritten to `out`. -/
def sendingState (d : Detector) (text raw out : List Char) (s : Xml) : Detector :=
  { d.firstCall with
    buffer := text
    currentToolNameSent := true
    xml := s
    lastArguments := out
    streamedRawLength := raw.length }

/-- What ends the arguments `out`. -/
def closingOf (s : Xml) (out : List Char) : List Char :=
  if s.isFirstParam then "\x7b\x7d".toList
  else if out.getLast? = some '\x7d' then []
  else "\x7d".toList

variable (lib tools d name pairs) in
inductive Settled : Detector → List Char → Prop
  | blank (hname : trimWhitespace name = []) :
      Settled (namingState d (callText name pairs)) []
  /-- The arguments cannot be stored, and the rest of them is lost. -/
  | stuck {raw sent frag : List Char} {s s' : Xml} (hname : trimWhitespace name ≠ [])
      (hstore : storeArguments lib (trimWhitespace name) (argsText pairs) tools = .none)
      (hproper : sent <+: argsText pairs ++ eotToken.dropLast)
      (hfeeds : Feeds lib (trimWhitespace name) tools {} sent s frag)
      (hraw : (argsText pairs).length ≤ raw.length) (out : List Char) :
      Settled (sendingState d (callText name pairs) raw out s') frag
  | done {e out : List Char} {s : Xml} {d' : Detector} (hname : trimWhitespace name ≠ [])
      (hstore : (storeArguments lib (trimWhitespace name) (argsText pairs) tools).isSome)
      (he : e <+: eotToken.dropLast)
      (hfeeds : Feeds lib (trimWhitespace name) tools {} (argsText pairs ++ e) s out)
      (hbuffer : d'.buffer = []) : Settled d' (out ++ closingOf s out)

variable (lib tools d name pairs) in
/-- The text of the call that has been received, the detector and the fragments. -/
inductive Progress : List Char → Detector → List Char → Prop
  /-- The start token is not complete. -/
  | early {u : List Char} (hu : u <+: botToken) (hne : u ≠ botToken) :
      Progress u { d with buffer := u } []
  /-- The name is not known to be complete, or it is blank. -/
  | naming {w : List Char} (hw : w <+: bodyText name pairs) (hne : w ≠ bodyText name pairs) :
      Progress (botToken ++ w) (namingState d (botToken ++ w)) []
  /-- Of the arguments, and of a start of the end token, `raw` has been rewritten. -/
  | sending {r raw out : List Char} {s : Xml} (hname : trimWhitespace name ≠ [])
      (hr : r <+: argsText pairs ++ eotToken)
      (hbegun : keyOpen <+: r ∨ r = argsText pairs ++ eotToken) (hraw : raw <+: r)
      (hproper : raw <+: argsText pairs ++ eotToken.dropLast)
      (hfeeds : Feeds lib (trimWhitespace name) tools {} raw s out) :
      Progress (botToken ++ (name ++ r)) (sendingState d (botToken ++ (name ++ r)) raw out s) out
  | settled {d' : Detector} {frag : List Char} (h : Settled lib tools d name pairs d' frag) :
      Progress (callText name pairs) d' frag

@[simp] theorem plainText_of_begun (hu : d.buffer <+: botToken) : d.plainText = ({}, d) := by
  unfold Detector.plainText
  by_cases hnil : d.buffer = []
  · rw [hnil]
    have hd : ({ d with buffer := [] } : Detector) = d := by rw [← hnil]
    rw [hd]
    rfl
  · rw [if_pos]
    refine List.any_eq_true.2 ⟨d.buffer.length, ?_, ?_⟩
    · rw [mem_range'_1]
      have hpos := List.length_pos_iff.2 hnil
      have hle := hu.length_le
      omega
    · rw [decide_eq_true_eq, Nat.sub_self]
      exact (List.prefix_iff_eq_take.1 hu).symm

theorem parseToolCallContent_args (hname : Name name) :
    parseToolCallContent (name ++ argsText pairs) = (trimWhitespace name, argsText pairs) := by
  by_cases hpairs : pairs = []
  · subst hpairs
    have hnil : name ++ argsText [] = name := append_nil name
    rw [hnil, parseToolCallContent_absent hname.keyOpen]
    rfl
  · obtain ⟨rest, hrest⟩ := argsText_head hpairs
    exact parseToolCallContent_begun hname (by rw [hrest]; exact prefix_append _ _)

theorem sendName_of_ne (h : Idle d) {b argsRaw : List Char} {isToolEnd : Bool}
    (hname : trimWhitespace name ≠ []) (hready : argsRaw ≠ [] ∨ isToolEnd = true) :
    (namingState d b).sendName (trimWhitespace name) argsRaw isToolEnd =
      ({ calls := [⟨d.firstCall.currentToolId, some (trimWhitespace name), []⟩] },
        sendingState d b [] [] {}) := by
  have hwait : ¬ (trimWhitespace name = [] ∨ argsRaw = [] ∧ isToolEnd = false) := by
    rintro (hnil | ⟨hraw, hend⟩)
    · exact hname hnil
    · rcases hready with hready | hready
      · exact hready hraw
      · rw [hready] at hend
        cases hend
  have hargs : d.firstCall.lastArguments = [] := h.firstCall.lastArguments
  rw [Detector.sendName, if_neg hwait, sendingState, namingState]
  simp only [hargs, length_nil]

theorem toolCall_eq {w f a : List Char} {rest : Option (List Char × List Char)}
    (hcut : splitFirst eotToken w = rest)
    (hparse : parseToolCallContent ((rest.map Prod.fst).getD w) = (f, a)) :
    d.toolCall lib tools w =
      if d.currentToolNameSent then d.continueCall lib tools f a (rest.map Prod.snd)
      else d.sendName f a rest.isSome := by
  rw [Detector.toolCall, hcut, hparse]

/-- The text that has been received is the whole call, or the arguments have begun, or no key
is in sight. -/
theorem content_cases (hname : Name name) (hpairs : ∀ pair ∈ pairs, Argument pair) {w : List Char}
    (hw : w <+: bodyText name pairs) :
    (w = bodyText name pairs ∧ splitFirst eotToken w = some (name ++ argsText pairs, []) ∧
        parseToolCallContent (name ++ argsText pairs) = (trimWhitespace name, argsText pairs)) ∨
      (w ≠ bodyText name pairs ∧ splitFirst eotToken w = none ∧
        ((∃ raw, w = name ++ raw ∧ keyOpen <+: raw ∧
            parseToolCallContent w = (trimWhitespace name, raw)) ∨
          (¬ keyOpen <:+: w ∧ parseToolCallContent w = (trimWhitespace w, [])))) := by
  by_cases hend : w = bodyText name pairs
  · refine Or.inl ⟨hend, ?_, parseToolCallContent_args hname⟩
    rw [hend]
    exact splitFirst_eot hname hpairs
  · refine Or.inr ⟨hend, splitFirst_eot_of_lt hname hpairs hw hend, ?_⟩
    rcases begun_or_absent hname hw with ⟨raw, rfl, hraw⟩ | habsent
    · exact Or.inl ⟨raw, rfl, hraw, parseToolCallContent_begun hname hraw⟩
    · exact Or.inr ⟨habsent, parseToolCallContent_absent habsent⟩

/-- A chunk that arrives before the name has been sent. -/
theorem naming_step (hidle : Idle d) (hname : Name name) (hpairs : ∀ pair ∈ pairs, Argument pair)
    {w : List Char} (hw : w <+: bodyText name pairs) :
    Progress lib tools d name pairs (botToken ++ w)
      ((namingState d (botToken ++ w)).toolCall lib tools w).2
      (fragments d.firstCall.currentToolId
        ((namingState d (botToken ++ w)).toolCall lib tools w).1) := by
  have hsent : (namingState d (botToken ++ w)).currentToolNameSent = false :=
    hidle.firstCall.currentToolNameSent
  have hnone : ∀ {f a : List Char} {rest : Option (List Char × List Char)},
      f = [] ∨ a = [] ∧ rest.isSome = false → (w = bodyText name pairs → trimWhitespace name = []) →
      splitFirst eotToken w = rest → parseToolCallContent ((rest.map Prod.fst).getD w) = (f, a) →
      Progress lib tools d name pairs (botToken ++ w)
        ((namingState d (botToken ++ w)).toolCall lib tools w).2
        (fragments d.firstCall.currentToolId
          ((namingState d (botToken ++ w)).toolCall lib tools w).1) := by
    intro f a rest hwait hblank hcut hparse
    rw [toolCall_eq hcut hparse, hsent, Detector.sendName, if_pos hwait]
    by_cases hend : w = bodyText name pairs
    · rw [hend]
      exact Progress.settled (Settled.blank (hblank hend))
    · exact Progress.naming hw hend
  have hsome : ∀ {r a : List Char} {rest : Option (List Char × List Char)},
      trimWhitespace name ≠ [] → a ≠ [] ∨ rest.isSome = true → w = name ++ r →
      (keyOpen <+: r ∨ r = argsText pairs ++ eotToken) → splitFirst eotToken w = rest →
      parseToolCallContent ((rest.map Prod.fst).getD w) = (trimWhitespace name, a) →
      Progress lib tools d name pairs (botToken ++ w)
        ((namingState d (botToken ++ w)).toolCall lib tools w).2
        (fragments d.firstCall.currentToolId
          ((namingState d (botToken ++ w)).toolCall lib tools w).1) := by
    intro r a rest hblank hready hr hbegun hcut hparse
    rw [toolCall_eq hcut hparse, hsent, if_neg Bool.false_ne_true,
      sendName_of_ne hidle hblank hready]
    have hfrag : fragments d.firstCall.currentToolId
        { calls := [⟨d.firstCall.currentToolId, some (trimWhitespace name), []⟩] } = [] := by
      simp [fragments]
    rw [hfrag]
    subst hr
    exact Progress.sending hblank ((prefix_append_right_inj name).1 hw) hbegun nil_prefix
      nil_prefix Feeds.nil
  by_cases hblank : trimWhitespace name = []
  · rcases content_cases hname hpairs hw with ⟨-, hcut, hparse⟩ | ⟨-, hcut, hbegun | habsent⟩
    · exact hnone (Or.inl hblank) (fun _ => hblank) hcut hparse
    · obtain ⟨raw, -, -, hparse⟩ := hbegun
      exact hnone (Or.inl hblank) (fun _ => hblank) hcut hparse
    · exact hnone (Or.inr ⟨rfl, rfl⟩) (fun _ => hblank) hcut habsent.2
  · rcases content_cases hname hpairs hw with ⟨hend, hcut, hparse⟩ | ⟨hpart, hcut, hbegun | habsent⟩
    · exact hsome hblank (Or.inr rfl) hend (Or.inr rfl) hcut hparse
    · obtain ⟨raw, hr, hraw, hparse⟩ := hbegun
      have hne : raw ≠ [] := by
        rintro rfl
        exact absurd (List.prefix_nil.1 hraw) isTag_keyOpen.ne_nil
      exact hsome hblank (Or.inl hne) hr (Or.inl hraw) hcut hparse
    · exact hnone (Or.inr ⟨rfl, rfl⟩) (fun hend => absurd hend hpart) hcut habsent.2

section

variable {text raw out rest o : List Char} {s s' : Xml}

theorem sendArguments_new (hrest : rest ≠ [])
    (hfeeds : Feeds lib (trimWhitespace name) tools s rest s' o) :
    (sendingState d text raw out s).sendArguments lib tools (trimWhitespace name) (raw ++ rest) =
      (some ((sendingState d text raw out s).item o),
        sendingState d text (raw ++ rest) (out ++ o) s') := by
  have hlt : (sendingState d text raw out s).streamedRawLength < (raw ++ rest).length := by
    have hpos := List.length_pos_iff.2 hrest
    rw [length_append]
    change raw.length < _
    omega
  have hdrop : (raw ++ rest).drop (sendingState d text raw out s).streamedRawLength = rest :=
    drop_left
  have hprocess : processXmlToJsonStreaming lib (trimWhitespace name) tools
      (sendingState d text raw out s).xml rest = (s', some o) := hfeeds
  rw [Detector.sendArguments, if_pos hlt, hdrop, hprocess]
  rfl

theorem sendArguments_old {a : List Char} (hlen : a.length ≤ raw.length) :
    (sendingState d text raw out s).sendArguments lib tools (trimWhitespace name) a =
      (some [], sendingState d text raw out s) := by
  have hnot : ¬ (sendingState d text raw out s).streamedRawLength < a.length := Nat.not_lt.2 hlen
  rw [Detector.sendArguments, if_neg hnot]

theorem sendArguments_feeds {a : List Char} {sF : Xml} {oF : List Char}
    (hraw : raw <+: a) (hfeeds : Feeds lib (trimWhitespace name) tools {} raw s out)
    (ha : Feeds lib (trimWhitespace name) tools {} a sF oF) :
    ∃ calls o, (sendingState d text raw out s).sendArguments lib tools (trimWhitespace name) a =
        (some calls, sendingState d text a oF sF) ∧ oF = out ++ o ∧
      fragments d.firstCall.currentToolId { calls := calls } = o := by
  obtain ⟨rest, rfl⟩ := hraw
  obtain ⟨s₁, o₁, o₂, hfirst, hlast, rfl⟩ := ha.split
  obtain ⟨rfl, rfl⟩ := hfeeds.unique hfirst
  by_cases hnil : rest = []
  · subst hnil
    cases hlast
    refine ⟨[], [], ?_, rfl, rfl⟩
    rw [append_nil, append_nil]
    exact sendArguments_old (Nat.le_refl _)
  · refine ⟨_, o₂, sendArguments_new hnil hlast, rfl, ?_⟩
    exact fragments_item (d := sendingState d text raw out s) o₂ []

theorem finish_settled {out₀ sent e : List Char} {s₀ : Xml} {calls : List ToolCallItem}
    (hname : trimWhitespace name ≠ []) (hsent : sent <+: argsText pairs ++ eotToken.dropLast)
    (hfeeds₀ : Feeds lib (trimWhitespace name) tools {} sent s₀ out₀)
    (he : e <+: eotToken.dropLast) (hlen : (argsText pairs).length ≤ raw.length)
    (hfeeds : Feeds lib (trimWhitespace name) tools {} (argsText pairs ++ e) s out)
    (hout : out = out₀ ++ fragments d.firstCall.currentToolId { calls := calls }) :
    Settled lib tools d name pairs
      ((sendingState d (callText name pairs) raw out s).finish lib tools (trimWhitespace name)
        (argsText pairs) [] calls).2
      (out₀ ++ fragments d.firstCall.currentToolId
        ((sendingState d (callText name pairs) raw out s).finish lib tools (trimWhitespace name)
          (argsText pairs) [] calls).1) := by
  rw [Detector.finish]
  cases hstore : storeArguments lib (trimWhitespace name) (argsText pairs) tools with
  | none =>
      rw [fragments_text, append_nil]
      exact Settled.stuck hname hstore hsent hfeeds₀ hlen _
  | some stored =>
      have hid : (sendingState d (callText name pairs) raw out s).currentToolId =
        d.firstCall.currentToolId := rfl
      have hclosing : (sendingState d (callText name pairs) raw out s).closing = closingOf s out :=
        rfl
      have hitem := fragments_item (d := sendingState d (callText name pairs) raw out s)
        (sendingState d (callText name pairs) raw out s).closing calls
      rw [hid] at hitem
      rw [hitem, ← append_assoc, ← hout]
      exact Settled.done hname (by rw [hstore]; rfl) he hfeeds rfl

theorem feeds_front (hfull : ∃ sF oF, Feeds lib (trimWhitespace name) tools {}
      (argsText pairs ++ eotToken.dropLast) sF oF) {a : List Char}
    (ha : a <+: argsText pairs ++ eotToken.dropLast) :
    ∃ s' o', Feeds lib (trimWhitespace name) tools {} a s' o' := by
  obtain ⟨sF, oF, hF⟩ := hfull
  obtain ⟨more, hmore⟩ := ha
  rw [← hmore] at hF
  obtain ⟨s', o', -, hfirst, -⟩ := hF.split
  exact ⟨s', o', hfirst⟩

theorem toolCall_sending {w a : List Char} {rest : Option (List Char × List Char)}
    (hcut : splitFirst eotToken w = rest)
    (hparse : parseToolCallContent ((rest.map Prod.fst).getD w) = (trimWhitespace name, a)) :
    (sendingState d text raw out s).toolCall lib tools w =
      (sendingState d text raw out s).continueCall lib tools (trimWhitespace name) a
        (rest.map Prod.snd) := by
  have hsent : (sendingState d text raw out s).currentToolNameSent = true := rfl
  rw [toolCall_eq hcut hparse, if_pos hsent]

theorem sending_end (hname : Name name) (hpairs : ∀ pair ∈ pairs, Argument pair)
    (hfull : ∃ sF oF, Feeds lib (trimWhitespace name) tools {}
      (argsText pairs ++ eotToken.dropLast) sF oF)
    (hblank : trimWhitespace name ≠ [])
    (hproper : raw <+: argsText pairs ++ eotToken.dropLast)
    (hfeeds : Feeds lib (trimWhitespace name) tools {} raw s out) :
    Settled lib tools d name pairs
      ((sendingState d (callText name pairs) raw out s).toolCall lib tools
        (bodyText name pairs)).2
      (out ++ fragments d.firstCall.currentToolId
        ((sendingState d (callText name pairs) raw out s).toolCall lib tools
          (bodyText name pairs)).1) := by
  have hend : splitFirst eotToken (bodyText name pairs) = some (name ++ argsText pairs, []) :=
    splitFirst_eot hname hpairs
  rw [toolCall_sending hend (parseToolCallContent_args hname), Detector.continueCall]
  rcases prefix_or_prefix_of_prefix hproper (prefix_append _ _) with hshort | hlong
  · -- the rest of the arguments is rewritten
    obtain ⟨s', o', hargs⟩ := feeds_front hfull (prefix_append _ _)
    obtain ⟨calls, o, hsend, ho, hfrag⟩ := sendArguments_feeds (d := d) hshort hfeeds hargs
    rw [hsend]
    refine finish_settled hblank hproper hfeeds nil_prefix (Nat.le_refl _)
      (by rwa [append_nil]) ?_
    rw [ho, hfrag]
  · -- a start of the end token has been rewritten, too
    obtain ⟨e, rfl⟩ := hlong
    rw [sendArguments_old (by rw [length_append]; omega)]
    refine finish_settled hblank hproper hfeeds ((prefix_append_right_inj _).1 hproper)
      (by rw [length_append]; omega) hfeeds ?_
    exact (append_nil out).symm

theorem sending_part (hname : Name name) (hpairs : ∀ pair ∈ pairs, Argument pair)
    (hfull : ∃ sF oF, Feeds lib (trimWhitespace name) tools {}
      (argsText pairs ++ eotToken.dropLast) sF oF) (hblank : trimWhitespace name ≠ [])
    {r : List Char} (hr : r <+: argsText pairs ++ eotToken) (hne : r ≠ argsText pairs ++ eotToken)
    (hkey : keyOpen <+: r) (hraw : raw <+: r)
    (hfeeds : Feeds lib (trimWhitespace name) tools {} raw s out) :
    Progress lib tools d name pairs (botToken ++ (name ++ r))
      ((sendingState d (botToken ++ (name ++ r)) raw out s).toolCall lib tools (name ++ r)).2
      (out ++ fragments d.firstCall.currentToolId
        ((sendingState d (botToken ++ (name ++ r)) raw out s).toolCall lib tools
          (name ++ r)).1) := by
  have hcut : splitFirst eotToken (name ++ r) = none := by
    refine splitFirst_eot_of_lt hname hpairs ((prefix_append_right_inj name).2 hr) ?_
    exact fun heq => hne (append_cancel_left heq)
  have hstart : r <+: argsText pairs ++ eotToken.dropLast := by
    rw [← dropLast_append_of_ne_nil isTag_eotToken.ne_nil]
    refine prefix_of_prefix_length_le hr (List.dropLast_prefix _) ?_
    have hlt := lt_of_le_of_ne hr.length_le fun heq => hne (hr.eq_of_length heq)
    rw [length_dropLast]
    omega
  obtain ⟨s', o', hargs⟩ := feeds_front hfull hstart
  obtain ⟨calls, o, hsend, ho, hfrag⟩ := sendArguments_feeds (d := d) hraw hfeeds hargs
  rw [toolCall_sending hcut (parseToolCallContent_begun hname hkey), Detector.continueCall, hsend]
  dsimp only [Option.map_none]
  rw [hfrag, ← ho]
  exact Progress.sending hblank hr (Or.inl hkey) (prefix_refl _) hstart hargs

theorem parseStreamingIncrement_call {c w : List Char} (hbuffer : d.buffer ++ c = botToken ++ w) :
    parseStreamingIncrement lib tools d c = (namingState d (botToken ++ w)).toolCall lib
      tools w := by
  rw [parseStreamingIncrement, hbuffer]
  rw [firstCall_buffer]
  rfl

@[simp] theorem namingState_namingState (t u : List Char) :
    namingState (namingState d t) u = namingState d u := by
  have hfirst : (namingState d t).firstCall = namingState d t := firstCall_of_ne (firstCall_ne d)
  rw [namingState, hfirst]
  rfl

@[simp] theorem namingState_sendingState (t u : List Char) :
    namingState (sendingState d t raw out s) u = sendingState d u raw out s := by
  have hfirst : (sendingState d t raw out s).firstCall = sendingState d t raw out s :=
    firstCall_of_ne (firstCall_ne d)
  rw [namingState, hfirst]
  rfl

theorem parseStreamingIncrement_plain {c : List Char} (h : d.buffer ++ c <+: botToken)
    (hne : d.buffer ++ c ≠ botToken) :
    parseStreamingIncrement lib tools d c = ({}, { d with buffer := d.buffer ++ c }) := by
  have habsent : splitFirst botToken (d.buffer ++ c) = none := by
    rw [splitFirst_eq_none]
    intro hin
    exact hne (h.eq_of_length_le hin.length_le)
  rw [parseStreamingIncrement]
  rw [habsent]
  exact plainText_of_begun h

theorem Settled.step (hidle : Idle d) (hname : Name name) (hpairs : ∀ pair ∈ pairs, Argument pair)
    {frag : List Char} (h : Settled lib tools d name pairs d' frag) :
    Settled lib tools d name pairs (parseStreamingIncrement lib tools d' []).2
      (frag ++ fragments d.firstCall.currentToolId
        (parseStreamingIncrement lib tools d' []).1) := by
  have hend : splitFirst eotToken (bodyText name pairs) = some (name ++ argsText pairs, []) :=
    splitFirst_eot hname hpairs
  have htext : callText name pairs ++ [] = botToken ++ bodyText name pairs := append_nil _
  cases h with
  | blank hblank =>
      have hsent : (namingState d (botToken ++ bodyText name pairs)).currentToolNameSent = false :=
        hidle.firstCall.currentToolNameSent
      rw [parseStreamingIncrement_call (d := namingState d (callText name pairs)) htext,
        namingState_namingState, toolCall_eq hend (parseToolCallContent_args hname), hsent,
        Detector.sendName, if_pos (Or.inl hblank)]
      exact Settled.blank hblank
  | stuck hblank hstore hproper hfeeds hraw out =>
      rename_i raw sent s s'
      have hcall : parseStreamingIncrement lib tools
        (sendingState d (callText name pairs) raw out s') [] =
          ({ normalText := callText name pairs },
            sendingState d (callText name pairs) raw (out ++ closingOf s' out) s') := by
        rw [parseStreamingIncrement_call
            (d := sendingState d (callText name pairs) raw out s') htext,
          namingState_sendingState, toolCall_sending hend (parseToolCallContent_args hname),
          Detector.continueCall, sendArguments_old hraw]
        dsimp only [Option.map_some]
        rw [Detector.finish, hstore]
        rfl
      rw [hcall, fragments_text, append_nil]
      exact Settled.stuck hblank hstore hproper hfeeds hraw _
  | done hblank hstore he hfeeds hbuffer =>
      have hcall : parseStreamingIncrement lib tools d' [] = ({}, d') := by
        have hnil : d'.buffer ++ [] = d'.buffer := append_nil _
        rw [parseStreamingIncrement_plain (by rw [hbuffer]; exact nil_prefix)
          (by rw [hbuffer]; decide), hnil]
      rw [hcall, fragments_text, append_nil]
      exact Settled.done hblank hstore he hfeeds hbuffer

/-- Step lemma: a chunk in the middle of a call. -/
theorem Progress.step (hidle : Idle d) (hname : Name name) (hpairs : ∀ pair ∈ pairs, Argument pair)
    (hfull : ∃ sF oF, Feeds lib (trimWhitespace name) tools {}
      (argsText pairs ++ eotToken.dropLast) sF oF)
    {u frag c : List Char} (h : Progress lib tools d name pairs u d' frag)
    (hc : u ++ c <+: callText name pairs) :
    Progress lib tools d name pairs (u ++ c) (parseStreamingIncrement lib tools d' c).2
      (frag ++ fragments d.firstCall.currentToolId (parseStreamingIncrement lib tools d' c).1) := by
  cases h with
  | early hu hne =>
      by_cases hbot : botToken <+: u ++ c
      · obtain ⟨w, hw⟩ := hbot
        rw [← hw] at hc ⊢
        rw [parseStreamingIncrement_call (d := { d with buffer := u }) hw.symm]
        have hstate : namingState { d with buffer := u } (botToken ++ w) =
            namingState d (botToken ++ w) := by
          rw [namingState, firstCall_buffer]
          rfl
        rw [hstate]
        exact naming_step hidle hname hpairs ((prefix_append_right_inj botToken).1 hc)
      · have hpre : u ++ c <+: botToken := by
          rcases prefix_or_prefix_of_prefix hc (prefix_append botToken _) with hle | hge
          · exact hle
          · exact absurd hge hbot
        have hproper : u ++ c ≠ botToken := fun heq => hbot (by rw [heq])
        rw [parseStreamingIncrement_plain (d := { d with buffer := u }) hpre hproper]
        exact Progress.early hpre hproper
  | naming hw hne =>
      rename_i w
      rw [parseStreamingIncrement_call (d := namingState d _) (append_assoc botToken w c),
        namingState_namingState]
      exact naming_step hidle hname hpairs ((prefix_append_right_inj botToken).1 hc)
  | sending hblank hr hbegun hraw hproper hfeeds =>
      rename_i r raw s
      have hassoc : botToken ++ (name ++ r) ++ c = botToken ++ (name ++ (r ++ c)) := by
        simp only [append_assoc]
      rw [hassoc] at hc ⊢
      have hr' : r ++ c <+: argsText pairs ++ eotToken :=
        (prefix_append_right_inj name).1 ((prefix_append_right_inj botToken).1 hc)
      rw [parseStreamingIncrement_call (d := sendingState d _ raw frag s) hassoc,
        namingState_sendingState]
      by_cases hend : r ++ c = argsText pairs ++ eotToken
      · rw [hend]
        exact Progress.settled (sending_end hname hpairs hfull hblank hproper hfeeds)
      · have hkey : keyOpen <+: r ++ c := by
          rcases hbegun with hkey | rfl
          · exact hkey.trans (prefix_append r c)
          · exact absurd (hr'.eq_of_length_le (prefix_append _ c).length_le) hend
        exact sending_part hname hpairs hfull hblank hr' hend hkey
          (hraw.trans (prefix_append r c)) hfeeds
  | settled h =>
      have hnil : c = [] := by
        have hlen := hc.length_le
        rw [length_append] at hlen
        exact List.length_eq_zero_iff.1 (by omega)
      subst hnil
      rw [append_nil]
      exact Progress.settled (h.step hidle hname hpairs)

/-- An empty chunk behind the whole call settles it. -/
theorem Progress.settle (hidle : Idle d) (hname : Name name)
    (hpairs : ∀ pair ∈ pairs, Argument pair)
    (hfull : ∃ sF oF, Feeds lib (trimWhitespace name) tools {}
      (argsText pairs ++ eotToken.dropLast) sF oF) {frag : List Char}
    (h : Progress lib tools d name pairs (callText name pairs) d' frag) :
    Settled lib tools d name pairs (parseStreamingIncrement lib tools d' []).2
      (frag ++ fragments d.firstCall.currentToolId
        (parseStreamingIncrement lib tools d' []).1) := by
  generalize htext : callText name pairs = text at h
  cases h with
  | early hu hne =>
      exact absurd (hu.eq_of_length_le (htext ▸ (prefix_append botToken _).length_le)) hne
  | naming hw hne => exact absurd (append_cancel_left htext).symm hne
  | sending hblank hr hbegun hraw hproper hfeeds =>
      rename_i r raw s
      have hr' : argsText pairs ++ eotToken = r := append_cancel_left (append_cancel_left htext)
      subst hr'
      rw [parseStreamingIncrement_call (d := sendingState d _ raw frag s) (append_nil _),
        namingState_sendingState]
      exact sending_end hname hpairs hfull hblank hproper hfeeds
  | settled h => exact h.step hidle hname hpairs

end

end Xllm.FunctionCall.Glm47
