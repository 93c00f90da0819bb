import Xllm.Lib.Text

/-!
# The reasoning detector

`ReasoningDetector` separates the reasoning of a model, which stands before the end token,
from its answer. `detect_and_parse` looks at the whole output, `parse_streaming_increment`
at one chunk after the other. A symbol of a text stands for a byte of the string.

The string functions are those of Abseil, as documented. In particular the overload of
`StrReplaceAll` that works in place returns the number of its substitutions, and this
number is what `parse_streaming_increment` goes on with, as a byte, when it has removed
the start token.

Both agree up to white space at the ends of the two parts, unless the start token occurs
or one of three things happens: a chunk with other text ends inside the end token, blanks
at the end of the chunk that ends the reasoning stand inside the answer, or the output
ends with a part of a token.
-/

namespace Xllm

open Text List

/-- `absl::ascii_isspace`. -/
def isSpace (c : Char) : Bool := c ∈ [' ', '\t', '\n', '\x0b', '\x0c', '\r']

structure ReasoningResult where
  normalText : Option (List Char) := .none
  reasoningText : Option (List Char) := .none

/-- The two tokens. They have no white space and no byte 1, the start token does not contain
the end token, and no end of the start token begins the end token. -/
structure ThinkTokens where
  thinkStart : List Char
  thinkEnd : List Char
  start_ne : thinkStart ≠ []
  end_ne : thinkEnd ≠ []
  start_solid : ∀ c ∈ thinkStart, isSpace c = false
  end_solid : ∀ c ∈ thinkEnd, isSpace c = false
  end_printable : '\x01' ∉ thinkEnd
  not_infix : ¬ thinkEnd <:+: thinkStart
  not_overlap : ∀ a, a ≠ [] → a <:+ thinkStart → ¬ a <+: thinkEnd

/-- The text is the beginning of a token: `parse_streaming_increment` waits for the rest. -/
def ThinkTokens.Waits (tokens : ThinkTokens) (text : List Char) : Prop :=
  (text <+: tokens.thinkStart ∧ tokens.thinkStart ≠ text) ∨
    (text <+: tokens.thinkEnd ∧ tokens.thinkEnd ≠ text)

instance (tokens : ThinkTokens) (text : List Char) : Decidable (tokens.Waits text) :=
  inferInstanceAs (Decidable (_ ∨ _))

structure ReasoningDetector extends ThinkTokens where
  inReasoning : Bool
  streamReasoning : Bool
  buffer : List Char := []
  strippedThinkStart : Bool := false

namespace ReasoningDetector

variable (d : ReasoningDetector)

def detectAndParse (text : List Char) : ReasoningResult :=
  if d.inReasoning = true ∨ d.thinkStart <:+: text then
    let processed := trim isSpace (delete d.thinkStart text)
    match splitFirst d.thinkEnd processed with
    | .none => { reasoningText := some processed }
    | some (reasoning, normal) =>
        { normalText := some (trim isSpace normal), reasoningText := some reasoning }
  else { normalText := some text }

/-- The start token is found for the first time. -/
def opens (text : List Char) : Bool :=
  !d.strippedThinkStart && decide (d.thinkStart <:+: text)

/-- `current_text` after the start token has been looked for. Where it is found, the
number of substitutions is assigned to the string. -/
def strip (text : List Char) : List Char :=
  if d.opens text then [Char.ofNat (deletions d.thinkStart text % 256)] else text

def parseStreamingIncrement (newText : List Char) : ReasoningResult × ReasoningDetector :=
  let buffered := { d with buffer := d.buffer ++ newText }
  let currentText := d.buffer ++ newText
  if d.Waits currentText then ({}, buffered)
  else
    let inReasoning := d.inReasoning || d.opens currentText
    let stripped := { buffered with
      strippedThinkStart := d.strippedThinkStart || d.opens currentText
      inReasoning := inReasoning }
    let text := d.strip currentText
    if inReasoning then
      match splitFirst d.thinkEnd text with
      | some (reasoning, normal) =>
          ({ normalText := some (trim isSpace normal), reasoningText := some reasoning },
            { stripped with buffer := [], inReasoning := false })
      | .none =>
          if d.streamReasoning then ({ reasoningText := some text }, { stripped with buffer := [] })
          else ({}, stripped)
    else ({ normalText := some text }, { stripped with buffer := [] })

/-- The texts that a stream of chunks has yielded, and the detector after it. -/
structure Streamed where
  reasoning : List Char := []
  normal : List Char := []
  detector : ReasoningDetector

/-- The chunks are given to `parse_streaming_increment` one after the other. -/
def stream (d : ReasoningDetector) : List (List Char) → Streamed
  | [] => { detector := d }
  | chunk :: chunks =>
      let (result, d) := d.parseStreamingIncrement chunk
      let rest := stream d chunks
      { rest with
        reasoning := result.reasoningText.getD [] ++ rest.reasoning
        normal := result.normalText.getD [] ++ rest.normal }

/-- The start token occurs at most once, and then at the beginning. -/
def AtMostOneStart (text : List Char) : Prop :=
  ¬ d.thinkStart <:+: text ∨
    (d.thinkStart <+: text ∧ ∀ x y, text = x ++ d.thinkStart ++ y → x = [])

/-- The text ends inside the reasoning. -/
def OpenBlock (text : List Char) : Prop :=
  (d.inReasoning = true ∨ d.thinkStart <:+: text) ∧
    ¬ d.thinkEnd <:+: delete d.thinkStart text

instance (text : List Char) : Decidable (d.OpenBlock text) :=
  inferInstanceAs (Decidable (_ ∧ _))

/-- The reasoning that is still in the buffer when the text ends inside it and reasoning is
not streamed. -/
def heldReasoning (chunks : List (List Char)) : List Char :=
  if d.streamReasoning = false ∧ d.OpenBlock chunks.flatten then
    delete d.thinkStart (d.stream chunks).detector.buffer
  else []

/-- Streaming yields the parts of the whole text, up to white space at their ends and up to
held reasoning. -/
def Agrees (chunks : List (List Char)) : Prop :=
  trim isSpace (d.stream chunks).normal =
      trim isSpace ((d.detectAndParse chunks.flatten).normalText.getD []) ∧
    trim isSpace ((d.stream chunks).reasoning ++ d.heldReasoning chunks) =
      trim isSpace ((d.detectAndParse chunks.flatten).reasoningText.getD [])

/-- A call on a text without start token meets neither a cut end token nor blanks inside
the answer: `rest` is the text of the later chunks. -/
def CleanStep (chunk rest : List Char) : Prop :=
  ¬ d.Waits (d.buffer ++ chunk) → d.inReasoning = true →
    match splitFirst d.thinkEnd (d.buffer ++ chunk) with
    | some (_, normal) =>
        ¬ (0 < solid isSpace normal ∧ EndsBlank isSpace normal ∧ 0 < solid isSpace rest)
    | .none => d.streamReasoning = true → ¬ Straddles d.thinkEnd (d.buffer ++ chunk) rest

/-- Every call is clean, and nothing is left in the buffer but reasoning that is not
streamed. -/
def Clean (d : ReasoningDetector) : List (List Char) → Prop
  | [] => d.buffer = [] ∨ (d.inReasoning = true ∧ d.streamReasoning = false)
  | chunk :: chunks =>
      d.CleanStep chunk chunks.flatten ∧ Clean (d.parseStreamingIncrement chunk).2 chunks

/-- What a text with start token needs: reasoning is not streamed, and it is open, or there
is nothing to yield and the last chunk completes the start token. -/
def SilentStart (chunks : List (List Char)) : Prop :=
  d.streamReasoning = false ∧
    (¬ d.thinkEnd <:+: delete d.thinkStart chunks.flatten ∨
      (solid isSpace (parts d.thinkEnd (delete d.thinkStart chunks.flatten)).1 = 0 ∧
        solid isSpace (parts d.thinkEnd (delete d.thinkStart chunks.flatten)).2 = 0 ∧
        chunks.dropLast.flatten.length < d.thinkStart.length))

/-- The condition under which streaming agrees with parsing the whole text. -/
def Regular (chunks : List (List Char)) : Prop :=
  if d.thinkStart <:+: chunks.flatten then d.SilentStart chunks else d.Clean chunks

section Steps

variable {d} {chunk rest : List Char} {chunks : List (List Char)}

theorem waits_nil : d.Waits [] := .inl ⟨List.nil_prefix, d.start_ne⟩

theorem solid_of_waits (h : d.Waits chunk) (hne : chunk ≠ []) : 0 < solid isSpace chunk := by
  obtain ⟨c, hc⟩ := exists_mem_of_ne_nil chunk hne
  rcases h with ⟨hpre, -⟩ | ⟨hpre, -⟩
  · exact solid_pos_of_mem hc (d.start_solid c (hpre.subset hc))
  · exact solid_pos_of_mem hc (d.end_solid c (hpre.subset hc))

theorem not_infix_of_waits (h : d.Waits chunk) : ¬ d.thinkEnd <:+: chunk := by
  intro hinf
  rcases h with ⟨hpre, -⟩ | ⟨hpre, hne⟩
  · exact d.not_infix (hinf.trans hpre.isInfix)
  · have hlen : d.thinkEnd.length = chunk.length :=
      Nat.le_antisymm hinf.length_le hpre.length_le
    exact hne (hpre.eq_of_length hlen.symm).symm

theorem solid_of_splitFirst {u v x y a : List Char}
    (hcut : splitFirst d.thinkEnd (u ++ v) = some (x, y)) (hu : u = x ++ a) (ha : a ≠ []) :
    0 < solid isSpace a := by
  have htext := splitFirst_eq_some hcut
  rw [hu, append_assoc, append_assoc, append_cancel_left_eq] at htext
  obtain ⟨c, a', rfl⟩ := exists_cons_of_ne_nil ha
  obtain ⟨e, tail, hend⟩ := exists_cons_of_ne_nil d.end_ne
  rw [hend] at htext
  have hhead : c = e := (List.cons_eq_cons.1 htext).1
  refine solid_pos_of_mem mem_cons_self (d.end_solid c ?_)
  rw [hend, hhead]
  exact mem_cons_self

/-- The start token has been found already or is not in the text. -/
def NoStart (d : ReasoningDetector) (text : List Char) : Prop :=
  d.strippedThinkStart = true ∨ ¬ d.thinkStart <:+: text

theorem NoStart.mono {text : List Char} (h : d.NoStart text) (hsub : chunk <:+: text) :
    d.NoStart chunk :=
  h.imp_right fun hno hin => hno (hin.trans hsub)

@[simp] theorem opens_of_noStart (h : d.NoStart chunk) : d.opens chunk = false := by
  rcases h with h | h
  · simp [opens, h]
  · simp [opens, h]

theorem parse_waits (h : d.Waits (d.buffer ++ chunk)) :
    d.parseStreamingIncrement chunk = ({}, { d with buffer := d.buffer ++ chunk }) := by
  rw [parseStreamingIncrement, if_pos h]

theorem parse_normal (hs : d.NoStart (d.buffer ++ chunk)) (h : ¬ d.Waits (d.buffer ++ chunk))
    (hin : d.inReasoning = false) :
    d.parseStreamingIncrement chunk =
      ({ normalText := some (d.buffer ++ chunk) }, { d with buffer := [] }) := by
  rw [parseStreamingIncrement, if_neg h]
  simp [opens_of_noStart hs, strip, hin]

theorem parse_end {reasoning normal : List Char} (hs : d.NoStart (d.buffer ++ chunk))
    (h : ¬ d.Waits (d.buffer ++ chunk)) (hin : d.inReasoning = true)
    (hcut : splitFirst d.thinkEnd (d.buffer ++ chunk) = some (reasoning, normal)) :
    d.parseStreamingIncrement chunk =
      ({ normalText := some (trim isSpace normal), reasoningText := some reasoning },
        { d with buffer := [], inReasoning := false }) := by
  rw [parseStreamingIncrement, if_neg h]
  simp [opens_of_noStart hs, strip, hin, hcut]

theorem parse_stream (hs : d.NoStart (d.buffer ++ chunk)) (h : ¬ d.Waits (d.buffer ++ chunk))
    (hin : d.inReasoning = true) (hcut : ¬ d.thinkEnd <:+: d.buffer ++ chunk)
    (hstream : d.streamReasoning = true) :
    d.parseStreamingIncrement chunk =
      ({ reasoningText := some (d.buffer ++ chunk) }, { d with buffer := [] }) := by
  rw [parseStreamingIncrement, if_neg h]
  simp [opens_of_noStart hs, strip, hin, splitFirst_eq_none.2 hcut, hstream]

theorem parse_hold (hs : d.NoStart (d.buffer ++ chunk)) (hin : d.inReasoning = true)
    (hcut : ¬ d.thinkEnd <:+: d.buffer ++ chunk) (hstream : d.streamReasoning = false) :
    d.parseStreamingIncrement chunk = ({}, { d with buffer := d.buffer ++ chunk }) := by
  by_cases h : d.Waits (d.buffer ++ chunk)
  · exact parse_waits h
  · rw [parseStreamingIncrement]
    simp [opens_of_noStart hs, strip, hin, splitFirst_eq_none.2 hcut, hstream]

/-- What a stream yields after the reasoning: everything but a part of a token at its
end. -/
structure YieldsAll (d : ReasoningDetector) (chunks : List (List Char)) : Prop where
  reasoning : (d.stream chunks).reasoning = []
  normal : (d.stream chunks).normal ++ (d.stream chunks).detector.buffer =
    d.buffer ++ chunks.flatten
  waits : d.Waits (d.stream chunks).detector.buffer
  clean : d.Clean chunks ↔ (d.stream chunks).detector.buffer = []

theorem yieldsAll (chunks : List (List Char)) (hin : d.inReasoning = false)
    (hs : d.NoStart (d.buffer ++ chunks.flatten))
    (hw : d.Waits d.buffer) : d.YieldsAll chunks := by
  induction chunks generalizing d with
  | nil =>
      refine ⟨rfl, ?_, hw, ?_⟩
      · simp [stream]
      · simp [Clean, stream, hin]
  | cons chunk chunks ih =>
      rw [flatten_cons, ← append_assoc] at hs
      have hstep : d.CleanStep chunk chunks.flatten := fun _ htrue => by simp [hin] at htrue
      by_cases hwait : d.Waits (d.buffer ++ chunk)
      · have hrest := ih (d := { d with buffer := d.buffer ++ chunk }) hin hs hwait
        refine ⟨?_, ?_, ?_, ?_⟩
        · simpa [stream, parse_waits hwait] using hrest.reasoning
        · simpa [stream, parse_waits hwait] using hrest.normal
        · simpa [stream, parse_waits hwait] using hrest.waits
        · simpa [stream, Clean, parse_waits hwait, hstep] using hrest.clean
      · have hcall := parse_normal (hs.mono (prefix_append _ _).isInfix) hwait hin
        have hrest := ih (d := { d with buffer := [] }) hin
          (hs.mono (suffix_append _ _).isInfix) waits_nil
        refine ⟨?_, ?_, ?_, ?_⟩
        · simpa [stream, hcall] using hrest.reasoning
        · simpa [stream, hcall] using hrest.normal
        · simpa [stream, hcall] using hrest.waits
        · simpa [stream, Clean, hcall, hstep] using hrest.clean

/-- The stream yields the two parts of the text exactly when all its calls are clean. -/
structure YieldsParts (d : ReasoningDetector) (chunks : List (List Char)) : Prop where
  clean : d.Clean chunks →
    (d.stream chunks).reasoning = (parts d.thinkEnd (d.buffer ++ chunks.flatten)).1 ∧
      trim isSpace (d.stream chunks).normal =
        trim isSpace (parts d.thinkEnd (d.buffer ++ chunks.flatten)).2
  not_clean : ¬ d.Clean chunks →
    ¬ (solid isSpace (d.stream chunks).reasoning =
        solid isSpace (parts d.thinkEnd (d.buffer ++ chunks.flatten)).1 ∧
      trim isSpace (d.stream chunks).normal =
        trim isSpace (parts d.thinkEnd (d.buffer ++ chunks.flatten)).2)

theorem yieldsParts_end {reasoning normal : List Char}
    (hs : d.NoStart (d.buffer ++ (chunk :: chunks).flatten))
    (hwait : ¬ d.Waits (d.buffer ++ chunk)) (hin : d.inReasoning = true)
    (hcut : splitFirst d.thinkEnd (d.buffer ++ chunk) = some (reasoning, normal)) :
    d.YieldsParts (chunk :: chunks) := by
  rw [flatten_cons, ← append_assoc] at hs
  have hcall := parse_end (hs.mono (prefix_append _ _).isInfix) hwait hin hcut
  have hrest := yieldsAll (d := { d with buffer := [], inReasoning := false }) chunks rfl
    (hs.mono (suffix_append _ _).isInfix) waits_nil
  have hparts : parts d.thinkEnd (d.buffer ++ (chunk :: chunks).flatten) =
      (reasoning, normal ++ chunks.flatten) := by
    rw [flatten_cons, ← append_assoc]
    exact parts_of_split (splitFirst_append hcut)
  have hclean : d.Clean (chunk :: chunks) ↔
      ¬ (0 < solid isSpace normal ∧ EndsBlank isSpace normal ∧ 0 < solid isSpace chunks.flatten) ∧
        ({ d with buffer := [], inReasoning := false } : ReasoningDetector).Clean chunks := by
    simp [Clean, CleanStep, hwait, hin, hcut, hcall]
  have hyield : (d.stream (chunk :: chunks)).reasoning = reasoning ∧
      (d.stream (chunk :: chunks)).normal = trim isSpace normal ++
        (({ d with buffer := [], inReasoning := false } : ReasoningDetector).stream
          chunks).normal := by
    simp [stream, hcall, hrest.reasoning]
  have hnormal := hrest.normal
  rw [nil_append] at hnormal
  rw [← trim_trim_append_iff, hrest.clean] at hclean
  refine ⟨fun h => ?_, fun h => ?_⟩
  · obtain ⟨htrim, hempty⟩ := hclean.1 h
    rw [hempty, append_nil] at hnormal
    rw [hparts, hyield.1, hyield.2, hnormal]
    exact ⟨rfl, htrim⟩
  · rw [hparts, hyield.2]
    rintro ⟨-, htrim⟩
    -- what is missing at the end is a part of a token, which has no white space
    have hsolid := solid_eq_of_trim_eq htrim
    have htotal := congrArg (solid isSpace) hnormal
    simp only [solid_append, solid_trim] at hsolid htotal
    have hempty : (({ d with buffer := [], inReasoning := false } :
        ReasoningDetector).stream chunks).detector.buffer = [] := by
      by_contra hne
      have hpos := solid_of_waits hrest.waits hne
      omega
    rw [hempty, append_nil] at hnormal
    rw [hnormal] at htrim
    exact h (hclean.2 ⟨htrim, hempty⟩)

/-- Streamed reasoning comes out in its parts. -/
theorem yieldsParts_streamed (hin : d.inReasoning = true) (hstream : d.streamReasoning = true)
    (hs : d.NoStart (d.buffer ++ chunks.flatten)) (hw : d.Waits d.buffer) :
    d.YieldsParts chunks := by
  induction chunks generalizing d with
  | nil =>
      have hparts : parts d.thinkEnd (d.buffer ++ [].flatten) = (d.buffer, []) := by
        rw [flatten_nil, append_nil]
        exact parts_of_absent (not_infix_of_waits hw)
      refine ⟨fun h => ?_, fun h => ?_⟩
      · rw [hparts]
        have hempty : d.buffer = [] := by simpa [Clean, hstream] using h
        exact ⟨hempty.symm, rfl⟩
      · rw [hparts]
        rintro ⟨hsolid, -⟩
        have hne : d.buffer ≠ [] := fun hempty => h (.inl hempty)
        have hpos := solid_of_waits hw hne
        simp only [stream, solid, countP_nil] at hsolid hpos
        omega
  | cons chunk chunks ih =>
      by_cases hwait : d.Waits (d.buffer ++ chunk)
      · rw [flatten_cons, ← append_assoc] at hs
        have hrest := ih (d := { d with buffer := d.buffer ++ chunk }) hin hstream hs hwait
        have hstep : d.CleanStep chunk chunks.flatten := fun hno => absurd hwait hno
        refine ⟨?_, ?_⟩
        · simpa [stream, Clean, parse_waits hwait, hstep] using hrest.clean
        · simpa [stream, Clean, parse_waits hwait, hstep] using hrest.not_clean
      by_cases hend : d.thinkEnd <:+: d.buffer ++ chunk
      · obtain ⟨⟨reasoning, normal⟩, hcut⟩ := Option.isSome_iff_exists.1 (splitFirst_isSome.2 hend)
        exact yieldsParts_end hs hwait hin hcut
      rw [flatten_cons, ← append_assoc] at hs
      have hcall := parse_stream (hs.mono (prefix_append _ _).isInfix) hwait hin hend hstream
      have hrest := ih (d := { d with buffer := [] }) hin hstream
        (hs.mono (suffix_append _ _).isInfix) waits_nil
      have hclean : d.Clean (chunk :: chunks) ↔
          ¬ Straddles d.thinkEnd (d.buffer ++ chunk) chunks.flatten ∧
            ({ d with buffer := [] } : ReasoningDetector).Clean chunks := by
        simp [Clean, CleanStep, hwait, hin, splitFirst_eq_none.2 hend, hstream, hcall]
      have hyield : (d.stream (chunk :: chunks)).reasoning = d.buffer ++ chunk ++
            (({ d with buffer := [] } : ReasoningDetector).stream chunks).reasoning ∧
          (d.stream (chunk :: chunks)).normal =
            (({ d with buffer := [] } : ReasoningDetector).stream chunks).normal := by
        simp [stream, hcall]
      have hsplit : d.buffer ++ (chunk :: chunks).flatten =
          (d.buffer ++ chunk) ++ chunks.flatten := by
        rw [flatten_cons, append_assoc]
      by_cases hover : Straddles d.thinkEnd (d.buffer ++ chunk) chunks.flatten
      · obtain ⟨x, y, a, hcut, hu, ha⟩ := hover.splitFirst
        refine ⟨fun h => absurd hover (hclean.1 h).1, fun _ => ?_⟩
        rw [hsplit, parts_of_split hcut, hyield.1, hu]
        rintro ⟨hsolid, -⟩
        have hpos := solid_of_splitFirst hcut hu ha
        simp only [solid_append] at hsolid
        omega
      · have hparts := parts_append hend hover
        refine ⟨fun h => ?_, fun h => ?_⟩
        · obtain ⟨hreasoning, hnormal⟩ := hrest.clean (hclean.1 h).2
          rw [hsplit, hparts, hyield.1, hyield.2, hreasoning, hnormal]
          exact ⟨rfl, rfl⟩
        · have hnot : ¬ ({ d with buffer := [] } : ReasoningDetector).Clean chunks :=
            fun hrestClean => h (hclean.2 ⟨hover, hrestClean⟩)
          rw [hsplit, hparts, hyield.1, hyield.2]
          rintro ⟨hsolid, hnormal⟩
          simp only [solid_append] at hsolid
          exact hrest.not_clean hnot ⟨Nat.add_left_cancel hsolid, hnormal⟩

theorem stream_held (chunks : List (List Char)) (hin : d.inReasoning = true)
    (hstream : d.streamReasoning = false)
    (hs : d.NoStart (d.buffer ++ chunks.flatten))
    (hend : ¬ d.thinkEnd <:+: d.buffer ++ chunks.flatten) :
    d.stream chunks = { detector := { d with buffer := d.buffer ++ chunks.flatten } } ∧
      d.Clean chunks := by
  induction chunks generalizing d with
  | nil =>
      refine ⟨?_, .inr ⟨hin, hstream⟩⟩
      rw [flatten_nil, append_nil, stream]
  | cons chunk chunks ih =>
      rw [flatten_cons, ← append_assoc] at hs hend ⊢
      have hpart : ¬ d.thinkEnd <:+: d.buffer ++ chunk :=
        fun h => hend (h.trans (prefix_append _ _).isInfix)
      have hcall := parse_hold (hs.mono (prefix_append _ _).isInfix) hin hpart hstream
      obtain ⟨hrest, hclean⟩ := ih (d := { d with buffer := d.buffer ++ chunk }) hin hstream hs hend
      refine ⟨?_, ?_, ?_⟩
      · rw [stream, hcall]
        simp only [hrest]
        rfl
      · intro _ _
        simp [splitFirst_eq_none.2 hpart, hstream]
      · rw [hcall]
        exact hclean

theorem reasoning_held (chunks : List (List Char)) (hin : d.inReasoning = true)
    (hstream : d.streamReasoning = false)
    (hs : d.NoStart (d.buffer ++ chunks.flatten))
    (hend : d.thinkEnd <:+: d.buffer ++ chunks.flatten)
    (hcalls : chunks ≠ [] ∨ ¬ d.thinkEnd <:+: d.buffer) :
    (d.stream chunks).reasoning = (parts d.thinkEnd (d.buffer ++ chunks.flatten)).1 := by
  induction chunks generalizing d with
  | nil =>
      rw [flatten_nil, append_nil] at hend
      exact absurd hend (hcalls.resolve_left fun h => h rfl)
  | cons chunk chunks ih =>
      rw [flatten_cons, ← append_assoc] at hs hend ⊢
      by_cases hpart : d.thinkEnd <:+: d.buffer ++ chunk
      · obtain ⟨⟨reasoning, normal⟩, hcut⟩ := Option.isSome_iff_exists.1 (splitFirst_isSome.2 hpart)
        have hwait : ¬ d.Waits (d.buffer ++ chunk) := fun h => not_infix_of_waits h hpart
        have hcall := parse_end (hs.mono (prefix_append _ _).isInfix) hwait hin hcut
        have hrest := yieldsAll (d := { d with buffer := [], inReasoning := false }) chunks rfl
          (hs.mono (suffix_append _ _).isInfix) waits_nil
        rw [parts_of_split (splitFirst_append hcut)]
        simp [stream, hcall, hrest.reasoning]
      · have hcall := parse_hold (hs.mono (prefix_append _ _).isInfix) hin hpart hstream
        have hrest := ih (d := { d with buffer := d.buffer ++ chunk }) hin hstream hs hend
          (.inr hpart)
        simpa [stream, hcall] using hrest

/-- Reasoning held back until it ends. -/
theorem yieldsParts_held (hin : d.inReasoning = true) (hstream : d.streamReasoning = false)
    (hs : d.NoStart (d.buffer ++ chunks.flatten))
    (hend : d.thinkEnd <:+: d.buffer ++ chunks.flatten) (hno : ¬ d.thinkEnd <:+: d.buffer) :
    d.YieldsParts chunks := by
  induction chunks generalizing d with
  | nil =>
      rw [flatten_nil, append_nil] at hend
      exact absurd hend hno
  | cons chunk chunks ih =>
      by_cases hpart : d.thinkEnd <:+: d.buffer ++ chunk
      · obtain ⟨⟨reasoning, normal⟩, hcut⟩ := Option.isSome_iff_exists.1 (splitFirst_isSome.2 hpart)
        have hwait : ¬ d.Waits (d.buffer ++ chunk) := fun h => not_infix_of_waits h hpart
        exact yieldsParts_end hs hwait hin hcut
      · rw [flatten_cons, ← append_assoc] at hs hend
        have hcall := parse_hold (hs.mono (prefix_append _ _).isInfix) hin hpart hstream
        have hrest := ih (d := { d with buffer := d.buffer ++ chunk }) hin hstream hs hend hpart
        have hstep : d.CleanStep chunk chunks.flatten := by
          intro _ _
          simp [splitFirst_eq_none.2 hpart, hstream]
        refine ⟨?_, ?_⟩
        · simpa [stream, Clean, hcall, hstep] using hrest.clean
        · simpa [stream, Clean, hcall, hstep] using hrest.not_clean

@[simp] theorem parts_start (text : List Char) : parts d.thinkEnd (d.thinkStart ++ text) =
    (d.thinkStart ++ (parts d.thinkEnd text).1, (parts d.thinkEnd text).2) := by
  apply parts_append d.not_infix
  rintro ⟨a, b, ha, -, hab, hsuffix, -⟩
  exact d.not_overlap a ha hsuffix (hab ▸ prefix_append a b)

theorem infix_start_iff {text : List Char} :
    d.thinkEnd <:+: d.thinkStart ++ text ↔ d.thinkEnd <:+: text := by
  have hover : ¬ Straddles d.thinkEnd d.thinkStart text := by
    rintro ⟨a, b, ha, -, hab, hsuffix, -⟩
    exact d.not_overlap a ha hsuffix (hab ▸ prefix_append a b)
  rw [← splitFirst_isSome, ← splitFirst_isSome, splitFirst_append_of_not d.not_infix hover,
    Option.isSome_map]

theorem parse_start {text : List Char} (hstripped : d.strippedThinkStart = false)
    (hu : d.buffer ++ chunk = d.thinkStart ++ text) (hone : ¬ d.thinkStart <:+: text) :
    d.parseStreamingIncrement chunk =
      if d.streamReasoning then
        ({ reasoningText := some ['\x01'] },
          { d with buffer := [], strippedThinkStart := true, inReasoning := true })
      else ({}, { d with
        buffer := d.buffer ++ chunk, strippedThinkStart := true, inReasoning := true }) := by
  have hwait : ¬ d.Waits (d.buffer ++ chunk) := by
    rw [hu]
    rintro (⟨hpre, hne⟩ | ⟨hpre, -⟩)
    · have hlen := hpre.length_le
      rw [length_append] at hlen
      have hempty : text = [] := eq_nil_of_length_eq_zero (by omega)
      rw [hempty, append_nil] at hne
      exact hne rfl
    · exact d.not_overlap d.thinkStart d.start_ne (suffix_refl _)
        ((prefix_append _ _).trans hpre)
  have hopens : d.opens (d.buffer ++ chunk) = true := by
    rw [hu]
    simp [opens, hstripped, (prefix_append d.thinkStart text).isInfix]
  have hcount : deletions d.thinkStart (d.buffer ++ chunk) = 1 := by
    rw [hu, deletions_append d.start_ne, deletions_of_not_infix hone]
  have hone' : ¬ d.thinkEnd <:+: ['\x01'] := by
    intro h
    obtain ⟨c, hc⟩ := exists_mem_of_ne_nil _ d.end_ne
    have hmem := h.subset hc
    rw [mem_singleton] at hmem
    exact d.end_printable (hmem ▸ hc)
  have hstrip : d.strip (d.buffer ++ chunk) = ['\x01'] := by
    rw [strip, if_pos hopens, hcount]
  rw [parseStreamingIncrement, if_neg hwait]
  simp only [hopens, Bool.or_true, if_true, hstrip, splitFirst_eq_none.2 hone']

/-- A stream that begins with the start token. When reasoning is streamed, byte 1 is
yielded. Otherwise nothing is yielded while the reasoning is open, and the start token is
yielded with the reasoning when a call follows the one that completes it. -/
structure YieldsStart (d : ReasoningDetector) (chunks : List (List Char)) (body : List Char) :
    Prop where
  streamed : d.streamReasoning = true → '\x01' ∈ (d.stream chunks).reasoning
  opened : d.streamReasoning = false → ¬ d.thinkEnd <:+: body →
    (d.stream chunks).reasoning = [] ∧ (d.stream chunks).normal = [] ∧
      (d.stream chunks).detector.buffer = d.thinkStart ++ body
  silent : d.streamReasoning = false →
    (d.buffer ++ chunks.dropLast.flatten).length < d.thinkStart.length →
    (d.stream chunks).reasoning = [] ∧ (d.stream chunks).normal = []
  closed : d.streamReasoning = false → d.thinkEnd <:+: body →
    ¬ (d.buffer ++ chunks.dropLast.flatten).length < d.thinkStart.length →
    (d.stream chunks).reasoning = d.thinkStart ++ (parts d.thinkEnd body).1

theorem yieldsStart (chunks : List (List Char)) {body : List Char}
    (hstripped : d.strippedThinkStart = false)
    (hbuffer : d.buffer.length < d.thinkStart.length)
    (htext : d.buffer ++ chunks.flatten = d.thinkStart ++ body)
    (hone : ¬ d.thinkStart <:+: body) : d.YieldsStart chunks body := by
  induction chunks generalizing d with
  | nil =>
      have hlen := congrArg List.length htext
      simp only [flatten_nil, append_nil, length_append] at hlen
      omega
  | cons chunk chunks ih =>
      rw [flatten_cons, ← append_assoc] at htext
      by_cases hlen : (d.buffer ++ chunk).length < d.thinkStart.length
      · have hpre : d.buffer ++ chunk <+: d.thinkStart :=
          prefix_of_prefix_length_le (prefix_append _ chunks.flatten)
            (htext ▸ prefix_append _ body) hlen.le
        have hwait : d.Waits (d.buffer ++ chunk) :=
          .inl ⟨hpre, fun h => by rw [h] at hlen; exact Nat.lt_irrefl _ hlen⟩
        have hne : chunks ≠ [] := by
          rintro rfl
          have hfull := congrArg List.length htext
          simp only [flatten_nil, append_nil, length_append] at hfull hlen
          omega
        have hrest := ih (d := { d with buffer := d.buffer ++ chunk }) hstripped hlen htext hone
        have hlast : d.buffer ++ (chunk :: chunks).dropLast.flatten =
            (d.buffer ++ chunk) ++ chunks.dropLast.flatten := by
          rw [dropLast_cons_of_ne_nil hne, flatten_cons, append_assoc]
        refine ⟨?_, ?_, ?_, ?_⟩
        · simpa [stream, parse_waits hwait] using hrest.streamed
        · simpa [stream, parse_waits hwait] using hrest.opened
        · rw [hlast]
          simpa [stream, parse_waits hwait] using hrest.silent
        · rw [hlast]
          simpa [stream, parse_waits hwait] using hrest.closed
      · obtain ⟨text, hu⟩ : d.thinkStart <+: d.buffer ++ chunk :=
          prefix_of_prefix_length_le (prefix_append _ body)
            (htext ▸ prefix_append _ chunks.flatten) (Nat.le_of_not_lt hlen)
        have hbody : text ++ chunks.flatten = body := by
          rw [← hu, append_assoc, append_cancel_left_eq] at htext
          exact htext
        have hcall := parse_start hstripped hu.symm
          fun h => hone (h.trans (hbody ▸ (prefix_append _ _).isInfix))
        -- the detector after the call, when reasoning is not streamed
        have hheld : ({ d with
            buffer := d.buffer ++ chunk, strippedThinkStart := true, inReasoning := true } :
            ReasoningDetector).buffer ++ chunks.flatten = d.thinkStart ++ body := htext
        refine ⟨fun hstream => ?_, fun hstream hend => ?_, fun hstream hlate => ?_,
          fun hstream hend hlate => ?_⟩
        · simp [stream, hcall, hstream]
        · obtain ⟨hrest, -⟩ := stream_held chunks (d := { d with
            buffer := d.buffer ++ chunk, strippedThinkStart := true, inReasoning := true })
            rfl hstream (.inl rfl) (by rw [hheld, infix_start_iff]; exact hend)
          rw [stream, hcall, if_neg (by simp [hstream])]
          dsimp only
          rw [hrest, hheld]
          exact ⟨rfl, rfl, rfl⟩
        · cases chunks with
          | nil => simp [stream, hcall, hstream]
          | cons next chunks =>
              refine absurd hlate ?_
              rw [dropLast_cons_of_ne_nil (cons_ne_nil _ _), flatten_cons,
                ← append_assoc, length_append]
              omega
        · cases chunks with
          | nil => exact absurd (by simpa using hbuffer) hlate
          | cons next chunks =>
              have hreasoning := reasoning_held (next :: chunks) (d := { d with
                buffer := d.buffer ++ chunk, strippedThinkStart := true, inReasoning := true })
                rfl hstream (.inl rfl) (by rw [hheld, infix_start_iff]; exact hend)
                (.inl (cons_ne_nil _ _))
              rw [hheld] at hreasoning
              rw [stream, hcall, if_neg (by simp [hstream])]
              exact hreasoning.trans (congrArg Prod.fst (parts_start (d := d) body))

/-- The whole text in one call. -/
theorem detectAndParse_parts (text : List Char)
    (h : d.inReasoning = true ∨ d.thinkStart <:+: text) :
    trim isSpace ((d.detectAndParse text).reasoningText.getD []) =
        trim isSpace (parts d.thinkEnd (delete d.thinkStart text)).1 ∧
      trim isSpace ((d.detectAndParse text).normalText.getD []) =
        trim isSpace (parts d.thinkEnd (delete d.thinkStart text)).2 := by
  obtain ⟨hfirst, hsecond⟩ := trim_parts_trim (t := delete d.thinkStart text) d.end_ne d.end_solid
  rw [← hfirst, ← hsecond, detectAndParse, if_pos h]
  dsimp only
  split
  · rename_i hcut
    rw [parts_of_absent (splitFirst_eq_none.1 hcut)]
    exact ⟨rfl, rfl⟩
  · rename_i reasoning normal hcut
    rw [parts_of_split hcut]
    exact ⟨rfl, trim_trim⟩

theorem agrees_iff_answer (hbuffer : d.buffer = []) (hin : d.inReasoning = false)
    (hno : ¬ d.thinkStart <:+: chunks.flatten) : d.Agrees chunks ↔ d.Clean chunks := by
  have hyield := yieldsAll chunks hin (.inr (by rw [hbuffer]; exact hno))
    (by rw [hbuffer]; exact waits_nil)
  have hnormal := hyield.normal
  rw [hbuffer, nil_append] at hnormal
  have hopen : ¬ (d.streamReasoning = false ∧ d.OpenBlock chunks.flatten) := by
    simp [OpenBlock, hin, hno]
  have hwhole : d.detectAndParse chunks.flatten = { normalText := some chunks.flatten } := by
    rw [detectAndParse, if_neg (by simp [hin, hno])]
  rw [Agrees, heldReasoning, if_neg hopen, hwhole, hyield.reasoning, hyield.clean]
  refine ⟨fun h => ?_, fun h => ?_⟩
  · by_contra hne
    have hsolid := solid_eq_of_trim_eq h.1
    have htotal := congrArg (solid isSpace) hnormal
    have hpos := solid_of_waits hyield.waits hne
    simp only [Option.getD_some, solid_append] at hsolid htotal
    omega
  · rw [h, append_nil] at hnormal
    rw [hnormal]
    exact ⟨rfl, rfl⟩

theorem YieldsParts.agrees_iff (h : d.YieldsParts chunks) (hbuffer : d.buffer = [])
    (hin : d.inReasoning = true) (hno : ¬ d.thinkStart <:+: chunks.flatten)
    (hheld : d.heldReasoning chunks = []) : d.Agrees chunks ↔ d.Clean chunks := by
  obtain ⟨hreasoning, hnormal⟩ := detectAndParse_parts chunks.flatten (.inl hin)
  rw [delete_of_absent hno] at hreasoning hnormal
  obtain ⟨hclean, hnot⟩ := h
  rw [hbuffer] at hclean hnot
  rw [Agrees, hheld, append_nil, hreasoning, hnormal]
  refine ⟨fun hagree => ?_, fun hc => ?_⟩
  · by_contra hc
    exact hnot hc ⟨solid_eq_of_trim_eq hagree.2, hagree.1⟩
  · obtain ⟨hr, hn⟩ := hclean hc
    rw [hr, hn]
    exact ⟨rfl, rfl⟩

/-- Without a start token. -/
theorem agrees_iff_clean (hbuffer : d.buffer = [])
    (hno : ¬ d.thinkStart <:+: chunks.flatten) : d.Agrees chunks ↔ d.Clean chunks := by
  have hs : d.NoStart (d.buffer ++ chunks.flatten) := .inr (by rw [hbuffer]; exact hno)
  have hw : d.Waits d.buffer := by rw [hbuffer]; exact waits_nil
  cases hin : d.inReasoning with
  | false => exact agrees_iff_answer hbuffer hin hno
  | true =>
  cases hstream : d.streamReasoning with
  | true =>
      refine (yieldsParts_streamed hin hstream hs hw).agrees_iff hbuffer hin hno ?_
      rw [heldReasoning, if_neg (by simp [hstream])]
  | false =>
  by_cases hend : d.thinkEnd <:+: chunks.flatten
  · have hno' : ¬ d.thinkEnd <:+: d.buffer := not_infix_of_waits hw
    refine (yieldsParts_held hin hstream hs (by rw [hbuffer]; exact hend) hno').agrees_iff
      hbuffer hin hno ?_
    rw [heldReasoning, if_neg (by simp [OpenBlock, delete_of_absent hno, hend])]
  · obtain ⟨hyield, hclean⟩ := stream_held _ hin hstream hs (by rw [hbuffer]; exact hend)
    obtain ⟨hreasoning, hnormal⟩ := detectAndParse_parts chunks.flatten (.inl hin)
    rw [delete_of_absent hno, parts_of_absent hend] at hreasoning hnormal
    have hopen : d.OpenBlock chunks.flatten := ⟨.inl hin, by rwa [delete_of_absent hno]⟩
    refine ⟨fun _ => hclean, fun _ => ?_⟩
    rw [Agrees, heldReasoning, if_pos ⟨hstream, hopen⟩, hyield, hreasoning, hnormal, hbuffer,
      nil_append, delete_of_absent hno]
    exact ⟨rfl, rfl⟩

theorem agrees_start {body : List Char} (hbuffer : d.buffer = [])
    (hstripped : d.strippedThinkStart = false) (htext : chunks.flatten = d.thinkStart ++ body)
    (hone : ¬ d.thinkStart <:+: body) :
    (d.SilentStart chunks → d.Agrees chunks) ∧
      (d.Agrees chunks → d.SilentStart chunks ∨ '\x01' ∈ chunks.flatten) := by
  have hlen : d.buffer.length < d.thinkStart.length := by
    rw [hbuffer]
    exact length_pos_of_ne_nil d.start_ne
  have hyield := yieldsStart chunks hstripped hlen
    (by rw [hbuffer]; exact htext) hone
  have hstart : d.thinkStart <:+: chunks.flatten := htext ▸ (prefix_append _ _).isInfix
  have hbody : delete d.thinkStart chunks.flatten = body := by
    rw [htext, delete_append d.start_ne, delete_of_absent hone]
  obtain ⟨hreasoning, hnormal⟩ := detectAndParse_parts chunks.flatten (.inr hstart)
  have hopen : d.OpenBlock chunks.flatten ↔ ¬ d.thinkEnd <:+: body := by
    rw [OpenBlock, hbody]
    simp [hstart]
  rw [SilentStart, Agrees, heldReasoning, hreasoning, hnormal, hbody]
  obtain ⟨hstreamed, hopened, hsilent, hclosed⟩ := hyield
  rw [hbuffer] at hsilent hclosed
  cases hstream : d.streamReasoning with
  | true =>
      refine ⟨fun h => by simp at h, fun h => .inr ?_⟩
      have hmem : '\x01' ∈ trim isSpace (parts d.thinkEnd body).1 := by
        rw [← h.2]
        exact mem_trim (mem_append_left _ (hstreamed hstream)) (by decide)
      have hpart : '\x01' ∈ body := by
        have hparts := trim_subset hmem
        by_cases hend : d.thinkEnd <:+: body
        · obtain ⟨⟨x, y⟩, hcut⟩ := Option.isSome_iff_exists.1 (splitFirst_isSome.2 hend)
          rw [parts_of_split hcut] at hparts
          rw [splitFirst_eq_some hcut]
          exact mem_append_left _ (mem_append_left _ hparts)
        · rw [parts_of_absent hend] at hparts
          exact hparts
      rw [htext]
      exact mem_append_right _ hpart
  | false =>
  by_cases hend : d.thinkEnd <:+: body
  · rw [if_neg (fun h => hopen.1 h.2 hend), append_nil]
    by_cases hlate : chunks.dropLast.flatten.length < d.thinkStart.length
    · obtain ⟨hr, hn⟩ := hsilent hstream hlate
      rw [hr, hn]
      have hzero : ∀ t : List Char, trim isSpace [] = trim isSpace t ↔ solid isSpace t = 0 := by
        intro t
        refine ⟨fun h => (solid_eq_of_trim_eq h).symm, fun h => ?_⟩
        rw [trim_eq_nil h]
        rfl
      rw [hzero, hzero]
      refine ⟨fun h => ?_, fun h => .inl ⟨rfl, .inr ⟨h.2, h.1, hlate⟩⟩⟩
      rcases h.2 with hno | hblank
      · exact absurd hend hno
      · exact ⟨hblank.2.1, hblank.1⟩
    · refine ⟨fun h => ?_, fun h => ?_⟩
      · rcases h.2 with hno | hblank
        · exact absurd hend hno
        · exact absurd hblank.2.2 hlate
      · rw [hclosed hstream hend hlate] at h
        have hsolid := solid_eq_of_trim_eq h.2
        obtain ⟨c, hc⟩ := exists_mem_of_ne_nil _ d.start_ne
        have hpos := solid_pos_of_mem hc (d.start_solid c hc)
        rw [solid_append] at hsolid
        omega
  · obtain ⟨hr, hn, hb⟩ := hopened hstream hend
    rw [if_pos ⟨rfl, hopen.2 hend⟩, hr, hn, hb, parts_of_absent hend,
      delete_append d.start_ne, delete_of_absent hone]
    exact ⟨fun _ => ⟨rfl, rfl⟩, fun _ => .inl ⟨rfl, .inl hend⟩⟩

end Steps

/-- Streaming agrees with parsing the whole text when the chunks are regular, and only
then, but for texts that contain byte 1 themselves. -/
theorem regular_iff_agrees (d : ReasoningDetector) (chunks : List (List Char))
    (hbuffer : d.buffer = []) (hstripped : d.strippedThinkStart = false)
    (hone : d.AtMostOneStart chunks.flatten) :
    (d.Regular chunks → d.Agrees chunks) ∧
      (d.Agrees chunks → d.Regular chunks ∨
        (d.thinkStart <:+: chunks.flatten ∧ '\x01' ∈ chunks.flatten)) := by
  rw [Regular]
  split
  · rename_i hstart
    obtain ⟨⟨body, htext⟩, honly⟩ := hone.resolve_left fun h => h hstart
    have hbody : ¬ d.thinkStart <:+: body := by
      rintro ⟨x, y, rfl⟩
      have hempty := honly (d.thinkStart ++ x) y (by rw [← htext]; simp)
      exact d.start_ne (List.append_eq_nil_iff.1 hempty).1
    obtain ⟨hregular, hagrees⟩ := agrees_start hbuffer hstripped htext.symm hbody
    exact ⟨hregular, fun h => (hagrees h).imp_right fun hbyte => ⟨hstart, hbyte⟩⟩
  · rename_i hstart
    have hiff := agrees_iff_clean hbuffer hstart
    exact ⟨hiff.2, fun h => .inl (hiff.1 h)⟩

/-- The tokens of most models. -/
def thinkTags : ThinkTokens where
  thinkStart := "<think>".toList
  thinkEnd := "</think>".toList
  start_ne := by decide
  end_ne := by decide
  start_solid := by simp [isSpace]
  end_solid := by simp [isSpace]
  end_printable := by decide
  not_infix := by decide
  not_overlap := by
    intro a ha hsuffix hpre
    have htails : ∀ a ∈ "<think>".toList.tails, a ≠ [] → ¬ a <+: "</think>".toList := by decide
    exact htails a ((mem_tails _ _).2 hsuffix) ha hpre

def forced (streamReasoning : Bool) : ReasoningDetector :=
  { thinkTags with inReasoning := true, streamReasoning := streamReasoning }

theorem regular_iff_agrees_forced :
    (forced true).AtMostOneStart ["ab".toList, "</think>".toList, "c".toList].flatten ∧
      ((forced true).Regular ["ab".toList, "</think>".toList, "c".toList] →
        (forced true).Agrees ["ab".toList, "</think>".toList, "c".toList]) :=
  ⟨.inl (by decide), (regular_iff_agrees (forced true)
    ["ab".toList, "</think>".toList, "c".toList] rfl rfl (.inl (by decide))).1⟩

/-- The start token is answered with byte 1, and the rest of its chunk is lost. -/
theorem stream_start_token_disagrees :
    (({ thinkTags with inReasoning := false, streamReasoning := true } :
        ReasoningDetector).stream ["<think>ab</think>c".toList]).reasoning = ['\x01'] ∧
      ¬ ({ thinkTags with inReasoning := false, streamReasoning := true } :
        ReasoningDetector).Agrees ["<think>ab</think>c".toList] := by
  refine ⟨by decide, fun h => ?_⟩
  have hnormal := h.1
  revert hnormal
  decide

end ReasoningDetector

end Xllm
