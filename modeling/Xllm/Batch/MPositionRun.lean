import Xllm.Batch.MPositionGlm
import Xllm.Batch.MPositionVision

/-!
# Rope positions over a run

The builder appends the columns that `get_positions` returns for a step. They are the columns of
the tokens of the step only if the step takes the whole sequence or just its last token: a chunk
of a prompt gets the columns of all tokens, and a chunk behind the prompt gets one column.

The blocks of the sequence and their capacity are left out.
-/

namespace Xllm

open Util Contract List

/-- Generated text that holds no placeholder where the positions look for one. -/
def PlainGenerated (args : MRopeArgs) (text : List Token) : Prop :=
  match args.kind with
  | .glm4v => args.imageTokenId ∉ text
  | _ => NoVision args text

instance (args : MRopeArgs) (text : List Token) : Decidable (PlainGenerated args text) :=
  match h : args.kind with
  | .glm4v => decidable_of_iff (args.imageTokenId ∉ text) (by rw [PlainGenerated, h])
  | .qwen3Vl => decidable_of_iff (NoVision args text) (by rw [PlainGenerated, h])
  | .other => decidable_of_iff (NoVision args text) (by rw [PlainGenerated, h])

section Matrix

variable {args : MRopeArgs} {spans : List MMSpan} {text : List Token}

theorem matrixPositions_of_plain (hargs : args.Valid) (hspans : ∀ span ∈ spans, span.Valid args)
    (hne : promptTokens args spans ≠ []) (htext : PlainGenerated args text) :
    matrixPositions args (promptTokens args spans ++ text) (mmData args spans) =
      .ok (sequenceColumns args spans text.length,
        topPosition (sequenceColumns args spans text.length) -
          (promptTokens args spans ++ text).length) := by
  have hne' : promptTokens args spans ++ text ≠ [] := by simp [hne]
  by_cases hkind : args.kind = .glm4v
  · simp only [PlainGenerated, hkind] at htext
    rw [matrixPositions, hkind]
    exact getPositionsGlm_eq hargs hkind hspans htext hne'
  · obtain ⟨found, hfound, himage, hvideo⟩ : NoVision args text := by
      unfold PlainGenerated at htext
      cases hk : args.kind <;> simp_all
    rw [matrixPositions_of_announces hargs hkind hspans hfound hne',
      count_eq_zero_of_not_mem himage, count_eq_zero_of_not_mem hvideo, if_pos rfl]

theorem matrixPositions_error (hargs : args.Valid) (hspans : ∀ span ∈ spans, span.Valid args)
    (hne : promptTokens args spans ≠ []) (htext : ¬ PlainGenerated args text) :
    ∃ e, matrixPositions args (promptTokens args spans ++ text) (mmData args spans) = .error e := by
  by_cases hkind : args.kind = .glm4v
  · simp only [PlainGenerated, hkind, not_not] at htext
    rw [matrixPositions, hkind]
    exact getPositionsGlm_error hargs hkind hspans htext hne
  · have htext : ¬ NoVision args text := by
      unfold PlainGenerated at htext
      cases hk : args.kind <;> simp_all
    cases hfound : visionTokens args.visionStartTokenId text with
    | error e => exact matrixPositions_of_error hargs hkind hspans hfound
    | ok found =>
        rw [matrixPositions_of_announces hargs hkind hspans hfound (by simp [hne]), if_neg ?_]
        · exact ⟨_, rfl⟩
        · intro hcount
          refine htext ⟨found, hfound, ?_, ?_⟩ <;>
            refine List.count_eq_zero.mp ?_ <;> omega

@[simp] theorem length_sequenceColumns (args : MRopeArgs) (spans : List MMSpan) (n : Nat) :
    (sequenceColumns args spans n).length = (promptTokens args spans).length + n := by
  obtain ⟨htokens, hcolumns⟩ := prompt_blocks args spans []
  rw [append_nil] at htokens
  rw [sequenceColumns, length_placeText]
  rw [length_nil, sequenceColumns, placeText_zero] at hcolumns
  rw [hcolumns, htokens, length_placeText, length_foldl_place args]
  simp

theorem sequenceColumns_behind (args : MRopeArgs) (spans : List MMSpan) {n j : Nat} (hj : j < n) :
    (sequenceColumns args spans n)[(promptTokens args spans).length + j]? =
      some (uniformColumn (topPosition (promptColumns args spans) + j)) := by
  have hlength : (promptColumns args spans).length = (promptTokens args spans).length := by
    have := length_sequenceColumns args spans 0
    simpa [sequenceColumns] using this
  rw [sequenceColumns, placeText, getElem?_append_right (by omega), hlength,
    Nat.add_sub_cancel_left, textPos, getElem?_map, getElem?_range hj]
  rfl

theorem topPosition_sequenceColumns (args : MRopeArgs) (spans : List MMSpan) (n : Nat) :
    topPosition (sequenceColumns args spans n) = topPosition (promptColumns args spans) + n :=
  topPosition_placeText _ n

end Matrix

/-- The members of a multimodal `Sequence` that the positions depend on. -/
structure MRopeSequence where
  tokens : List Token
  numPromptTokens : Nat
  volatileNumPromptTokens : Nat
  kvCacheTokensNum : Nat := 0
  mropePositionDelta : Int := 0
  mmData : MRopeData

def MRopeSequence.generated (seq : MRopeSequence) : List Token :=
  seq.tokens.drop seq.numPromptTokens

def getPositions (args : MRopeArgs) (seq : MRopeSequence) :
    Except TensorFault (List PosColumn × MRopeSequence) :=
  if seq.kvCacheTokensNum < seq.numPromptTokens then do
    let (positions, delta) ← matrixPositions args seq.tokens seq.mmData
    return (positions, { seq with mropePositionDelta := delta })
  else
    return (getPositionsD seq.mropePositionDelta seq.tokens.length, seq)

structure AppendedPositions where
  kvCacheTokensNum : Nat
  seqLen : Nat
  positions : List PosColumn
  numTokens : Nat

def MRopeSequence.qSeqLen (seq : MRopeSequence) (allowedMaxTokens : Nat) : Nat :=
  min (Sequence.subUInt32 seq.tokens.length seq.kvCacheTokensNum) allowedMaxTokens

def paddedQSeqLen (qSeqLen allowedMaxTokens cpSize : Nat) (isPrefill : Bool) : Nat :=
  if 1 < cpSize ∧ isPrefill = true then
    min allowedMaxTokens (Sequence.alignUp qSeqLen (cpSize * 2))
  else qSeqLen

def processPositions (args : MRopeArgs) (allowedMaxTokens cpSize : Nat) (isPrefill : Bool)
    (seq : MRopeSequence) : Except TensorFault (AppendedPositions × MRopeSequence) := do
  check (decide (0 < allowedMaxTokens))
  let qSeqLen := seq.qSeqLen allowedMaxTokens
  let padded := paddedQSeqLen qSeqLen allowedMaxTokens cpSize isPrefill
  check (decide (0 < qSeqLen))
  let (positions, seq') ← getPositions args seq
  return ({
      kvCacheTokensNum := seq.kvCacheTokensNum
      seqLen := qSeqLen + seq.kvCacheTokensNum
      positions
      numTokens := padded },
    { seq' with kvCacheTokensNum := seq.kvCacheTokensNum + padded })

/-- What happens to a sequence. -/
inductive MRopeOp
  | forward (allowedMaxTokens cpSize : Nat) (isPrefill : Bool)
  | append (token : Token)
  | preempt
  /-- Blocks of other sequences hold the first tokens. -/
  | share (numTokens : Nat)

def mropeStep (args : MRopeArgs) (seq : MRopeSequence) : MRopeOp → Except TensorFault MRopeSequence
  | .forward allowedMaxTokens cpSize isPrefill =>
      (processPositions args allowedMaxTokens cpSize isPrefill seq).map (·.2)
  | .append token => do
      check (decide (0 < seq.kvCacheTokensNum))
      -- the sequence is not in the middle of a prefill
      check (decide (max seq.volatileNumPromptTokens seq.numPromptTokens ≤ seq.kvCacheTokensNum))
      return { seq with
        tokens := seq.tokens ++ [token]
        kvCacheTokensNum := seq.tokens.length }
  | .preempt =>
      .ok { seq with kvCacheTokensNum := 0, volatileNumPromptTokens := seq.tokens.length }
  | .share numTokens => do
      check (decide (seq.kvCacheTokensNum = 0 ∧ numTokens < seq.tokens.length))
      return { seq with kvCacheTokensNum := numTokens }

def newMRopeSequence (args : MRopeArgs) (spans : List MMSpan) : MRopeSequence where
  tokens := promptTokens args spans
  numPromptTokens := (promptTokens args spans).length
  volatileNumPromptTokens := (promptTokens args spans).length
  mmData := mmData args spans

def AppendsColumns (args : MRopeArgs) (spans : List MMSpan) (seq : MRopeSequence) :
    MRopeOp → Prop
  | .forward allowedMaxTokens cpSize isPrefill =>
      ∃ appended seq', processPositions args allowedMaxTokens cpSize isPrefill seq =
          .ok (appended, seq') ∧
        appended.positions =
          ((sequenceColumns args spans seq.generated.length).drop appended.kvCacheTokensNum).take
            (appended.seqLen - appended.kvCacheTokensNum) ∧
        appended.positions.length = appended.numTokens
  | _ => True

/-- A step that takes the whole sequence, with plain text behind the prompt, or its last token,
without padding. -/
def TakesWhole (args : MRopeArgs) (seq : MRopeSequence) : MRopeOp → Prop
  | .forward allowedMaxTokens cpSize isPrefill =>
      paddedQSeqLen (seq.qSeqLen allowedMaxTokens) allowedMaxTokens cpSize isPrefill =
          seq.qSeqLen allowedMaxTokens ∧
        0 < allowedMaxTokens ∧
        ((seq.kvCacheTokensNum = 0 ∧ seq.tokens.length ≤ allowedMaxTokens ∧
            PlainGenerated args seq.generated) ∨
          (seq.numPromptTokens ≤ seq.kvCacheTokensNum ∧
            seq.kvCacheTokensNum + 1 = seq.tokens.length))
  | _ => True

instance (args : MRopeArgs) (seq : MRopeSequence) : (op : MRopeOp) →
    Decidable (TakesWhole args seq op)
  | .forward _ _ _ => inferInstanceAs (Decidable (_ ∧ _))
  | .append _ => .isTrue trivial
  | .preempt => .isTrue trivial
  | .share _ => .isTrue trivial

/-- How far the positions behind the prompt are from the number of tokens. -/
def promptDelta (args : MRopeArgs) (spans : List MMSpan) : Int :=
  topPosition (promptColumns args spans) - (promptTokens args spans).length

structure MRopeInv (args : MRopeArgs) (spans : List MMSpan) (seq : MRopeSequence) : Prop where
  tokens : seq.tokens = promptTokens args spans ++ seq.generated
  prompt : seq.numPromptTokens = (promptTokens args spans).length
  data : seq.mmData = mmData args spans
  /-- Once there is a token behind the prompt, or the prompt is in the cache, the delta is kept. -/
  delta : seq.generated ≠ [] ∨ seq.numPromptTokens ≤ seq.kvCacheTokensNum →
    seq.mropePositionDelta = promptDelta args spans

section Run

variable {args : MRopeArgs} {spans : List MMSpan} {seq : MRopeSequence}

theorem MRopeInv.length (h : MRopeInv args spans seq) :
    seq.tokens.length = seq.numPromptTokens + seq.generated.length := by
  rw [h.tokens, length_append, h.prompt]

/-- A sequence just made has generated nothing. -/
theorem newMRopeSequence_inv (hne : promptTokens args spans ≠ []) :
    MRopeInv args spans (newMRopeSequence args spans) := by
  have hgenerated : (newMRopeSequence args spans).generated = [] := by
    simp [MRopeSequence.generated, newMRopeSequence]
  have hpos := List.length_pos_iff.mpr hne
  refine ⟨by rw [hgenerated, append_nil]; rfl, rfl, rfl, ?_⟩
  rintro (h | h)
  · exact absurd hgenerated h
  · simp only [newMRopeSequence] at h
    omega

theorem getPositions_prompt (hargs : args.Valid) (hspans : ∀ span ∈ spans, span.Valid args)
    (hne : promptTokens args spans ≠ []) (h : MRopeInv args spans seq)
    (hkv : seq.kvCacheTokensNum < seq.numPromptTokens) :
    (PlainGenerated args seq.generated → getPositions args seq =
      .ok (sequenceColumns args spans seq.generated.length,
        { seq with mropePositionDelta := promptDelta args spans })) ∧
      (¬ PlainGenerated args seq.generated → ∃ e, getPositions args seq = .error e) := by
  constructor <;> intro hplain
  · have hmatrix := matrixPositions_of_plain hargs hspans hne hplain
    rw [← h.tokens, ← h.data] at hmatrix
    have hdelta : topPosition (sequenceColumns args spans seq.generated.length) -
        seq.tokens.length = promptDelta args spans := by
      rw [topPosition_sequenceColumns, h.length, h.prompt, promptDelta]
      omega
    rw [getPositions, if_pos hkv, hmatrix, hdelta]
    rfl
  · obtain ⟨e, he⟩ := matrixPositions_error hargs hspans hne hplain
    rw [← h.tokens, ← h.data] at he
    exact ⟨e, by rw [getPositions, if_pos hkv, he]; rfl⟩

theorem getPositions_behind (h : MRopeInv args spans seq)
    (hkv : seq.numPromptTokens ≤ seq.kvCacheTokensNum) :
    getPositions args seq =
      .ok ([uniformColumn (topPosition (promptColumns args spans) + seq.generated.length - 1)],
        seq) := by
  have hdelta := h.delta (.inr hkv)
  have hlast : seq.mropePositionDelta + seq.tokens.length - 1 =
      topPosition (promptColumns args spans) + seq.generated.length - 1 := by
    rw [hdelta, promptDelta, h.length, h.prompt]
    omega
  rw [getPositions, if_neg (by omega), getPositionsD, hlast]
  rfl

theorem check_eq_ok_iff {c : Bool} {u : Unit} : check c = .ok u ↔ c = true := by
  cases c <;> simp [check]

theorem processPositions_eq_ok_iff {allowedMaxTokens cpSize : Nat} {isPrefill : Bool}
    {appended : AppendedPositions} {next : MRopeSequence} :
    processPositions args allowedMaxTokens cpSize isPrefill seq = .ok (appended, next) ↔
      0 < allowedMaxTokens ∧ 0 < seq.qSeqLen allowedMaxTokens ∧
        ∃ positions seq', getPositions args seq = .ok (positions, seq') ∧
          appended = {
            kvCacheTokensNum := seq.kvCacheTokensNum
            seqLen := seq.qSeqLen allowedMaxTokens + seq.kvCacheTokensNum
            positions
            numTokens := paddedQSeqLen (seq.qSeqLen allowedMaxTokens) allowedMaxTokens cpSize
              isPrefill } ∧
          next = { seq' with
            kvCacheTokensNum := seq.kvCacheTokensNum +
              paddedQSeqLen (seq.qSeqLen allowedMaxTokens) allowedMaxTokens cpSize isPrefill } := by
  unfold processPositions
  constructor
  · intro h
    obtain ⟨_, hallowed, h⟩ := bind_eq_ok h
    obtain ⟨_, hlen, h⟩ := bind_eq_ok h
    obtain ⟨⟨positions, seq'⟩, hget, h⟩ := bind_eq_ok h
    obtain ⟨rfl, rfl⟩ := Prod.mk.inj (Except.ok.inj h)
    exact ⟨of_decide_eq_true (check_eq_ok_iff.mp hallowed),
      of_decide_eq_true (check_eq_ok_iff.mp hlen), positions, seq', hget, rfl, rfl⟩
  · rintro ⟨hallowed, hlen, positions, seq', hget, rfl, rfl⟩
    simp only [hallowed, hlen, hget]
    rfl

theorem promptTokens_pos (h : MRopeInv args spans seq) (hne : promptTokens args spans ≠ []) :
    0 < seq.numPromptTokens := by
  rw [h.prompt]
  exact List.length_pos_iff.mpr hne

theorem generated_append (h : MRopeInv args spans seq) (token : Token) :
    (seq.tokens ++ [token]).drop seq.numPromptTokens = seq.generated ++ [token] := by
  have hlength := h.length
  rw [drop_append_of_le_length (by omega)]
  rfl

/-- Step lemma: the delta, once kept, is that of the prompt. -/
theorem mropeStep_inv (hargs : args.Valid) (hspans : ∀ span ∈ spans, span.Valid args)
    (hne : promptTokens args spans ≠ []) (op : MRopeOp) {next : MRopeSequence}
    (h : MRopeInv args spans seq) (hstep : mropeStep args seq op = .ok next) :
    MRopeInv args spans next := by
  cases op with
  | forward allowedMaxTokens cpSize isPrefill =>
      simp only [mropeStep] at hstep
      cases hprocess : processPositions args allowedMaxTokens cpSize isPrefill seq with
      | error e => simp [hprocess, Except.map] at hstep
      | ok r =>
          obtain ⟨appended, next'⟩ := r
          simp only [hprocess, Except.map, Except.ok.injEq] at hstep
          obtain rfl := hstep
          obtain ⟨-, -, positions, seq', hget, -, rfl⟩ := processPositions_eq_ok_iff.mp hprocess
          have hkept : seq' = { seq with mropePositionDelta := promptDelta args spans } := by
            by_cases hkv : seq.kvCacheTokensNum < seq.numPromptTokens
            · obtain ⟨hplain, herror⟩ := getPositions_prompt hargs hspans hne h hkv
              by_cases htext : PlainGenerated args seq.generated
              · rw [hplain htext] at hget
                exact (Prod.mk.inj (Except.ok.inj hget)).2.symm
              · obtain ⟨e, he⟩ := herror htext
                rw [he] at hget
                cases hget
            · rw [getPositions_behind h (by omega)] at hget
              rw [← (Prod.mk.inj (Except.ok.inj hget)).2, ← h.delta (.inr (by omega))]
          subst hkept
          exact ⟨h.tokens, h.prompt, h.data, fun _ => rfl⟩
  | append token =>
      obtain ⟨_, -, hstep⟩ := bind_eq_ok hstep
      obtain ⟨_, hstage, hstep⟩ := bind_eq_ok hstep
      obtain rfl := Except.ok.inj hstep
      have hstage := of_decide_eq_true (check_eq_ok_iff.mp hstage)
      refine ⟨?_, h.prompt, h.data, fun _ => h.delta (.inr (by omega))⟩
      change seq.tokens ++ [token] =
        promptTokens args spans ++ (seq.tokens ++ [token]).drop seq.numPromptTokens
      rw [generated_append h, ← append_assoc, ← h.tokens]
  | preempt =>
      obtain rfl := Except.ok.inj hstep
      refine ⟨h.tokens, h.prompt, h.data, fun hkept => h.delta ?_⟩
      rcases hkept with hgenerated | hkv
      · exact .inl hgenerated
      · simp only at hkv
        omega
  | share numTokens =>
      obtain ⟨_, hcheck, hstep⟩ := bind_eq_ok hstep
      obtain rfl := Except.ok.inj hstep
      obtain ⟨-, hlt⟩ := of_decide_eq_true (check_eq_ok_iff.mp hcheck)
      refine ⟨h.tokens, h.prompt, h.data, fun hkept => h.delta (.inl ?_)⟩
      rcases hkept with hgenerated | hkv
      · exact hgenerated
      · have hlength := h.length
        simp only at hkv
        exact List.length_pos_iff.mp (by omega)

theorem length_columns (h : MRopeInv args spans seq) :
    (sequenceColumns args spans seq.generated.length).length = seq.tokens.length := by
  rw [length_sequenceColumns, h.length, h.prompt]

theorem qSeqLen_eq (allowedMaxTokens : Nat) (hkv : seq.kvCacheTokensNum ≤ seq.tokens.length) :
    seq.qSeqLen allowedMaxTokens =
      min (seq.tokens.length - seq.kvCacheTokensNum) allowedMaxTokens := by
  rw [MRopeSequence.qSeqLen, Sequence.subUInt32, if_pos hkv]

/-- While the prompt is not in the cache a step appends the columns of its tokens exactly if it
takes the whole sequence. -/
theorem appendsColumns_prompt (hargs : args.Valid) (hspans : ∀ span ∈ spans, span.Valid args)
    (hne : promptTokens args spans ≠ []) (h : MRopeInv args spans seq)
    (hkv : seq.kvCacheTokensNum < seq.numPromptTokens) (allowedMaxTokens cpSize : Nat)
    (isPrefill : Bool) :
    AppendsColumns args spans seq (.forward allowedMaxTokens cpSize isPrefill) ↔
      TakesWhole args seq (.forward allowedMaxTokens cpSize isPrefill) := by
  obtain ⟨hplain, herror⟩ := getPositions_prompt hargs hspans hne h hkv
  have hlength := h.length
  have hcolumns := length_columns h
  have hq := qSeqLen_eq allowedMaxTokens (show seq.kvCacheTokensNum ≤ seq.tokens.length by omega)
  constructor
  · rintro ⟨appended, next, hprocess, hpositions, hcount⟩
    obtain ⟨hallowed, hqpos, positions, seq', hget, rfl, -⟩ :=
      processPositions_eq_ok_iff.mp hprocess
    by_cases htext : PlainGenerated args seq.generated
    · rw [hplain htext] at hget
      obtain ⟨rfl, -⟩ := Prod.mk.inj (Except.ok.inj hget)
      have hslice := congrArg List.length hpositions
      simp only [length_take] at hslice
      simp only [hcolumns] at hcount
      exact ⟨by omega, hallowed, .inl ⟨by omega, by omega, htext⟩⟩
    · obtain ⟨e, he⟩ := herror htext
      rw [he] at hget
      cases hget
  · rintro ⟨hpadded, hallowed, ⟨hzero, hfit, htext⟩ | ⟨hbehind, -⟩⟩
    · refine ⟨_, _, processPositions_eq_ok_iff.mpr
        ⟨hallowed, by omega, _, _, hplain htext, rfl, rfl⟩, ?_, ?_⟩
      · simp only [hzero, drop_zero]
        rw [take_of_length_le (by omega)]
      · simp only [hcolumns]
        omega
    · omega

/-- Once the prompt is in the cache a step appends the columns of its tokens exactly if it takes
the last token. -/
theorem appendsColumns_behind (hne : promptTokens args spans ≠ []) (h : MRopeInv args spans seq)
    (hkv : seq.numPromptTokens ≤ seq.kvCacheTokensNum) (allowedMaxTokens cpSize : Nat)
    (isPrefill : Bool) :
    AppendsColumns args spans seq (.forward allowedMaxTokens cpSize isPrefill) ↔
      TakesWhole args seq (.forward allowedMaxTokens cpSize isPrefill) := by
  have hget := getPositions_behind h hkv
  have hpos := promptTokens_pos h hne
  have hlength := h.length
  have hcolumns := length_columns h
  have hprompt := h.prompt
  constructor
  · rintro ⟨appended, next, hprocess, hpositions, hcount⟩
    obtain ⟨hallowed, hqpos, positions, seq', hget', rfl, -⟩ :=
      processPositions_eq_ok_iff.mp hprocess
    rw [hget] at hget'
    obtain ⟨rfl, -⟩ := Prod.mk.inj (Except.ok.inj hget')
    simp only [Nat.add_sub_cancel] at hpositions
    simp only [length_singleton] at hcount
    -- the only column is the first of the slice
    have hfirst := congrArg (·[0]?) hpositions
    simp only [getElem?_cons_zero, getElem?_take_of_lt hqpos, getElem?_drop,
      Nat.add_zero] at hfirst
    have hlt : seq.kvCacheTokensNum < seq.tokens.length := by
      by_contra hge
      rw [getElem?_eq_none (by omega)] at hfirst
      cases hfirst
    have hcolumn := sequenceColumns_behind args spans (n := seq.generated.length)
      (j := seq.kvCacheTokensNum - seq.numPromptTokens) (by omega)
    rw [← hprompt, Nat.add_sub_cancel' hkv] at hcolumn
    rw [hcolumn, Option.some.injEq, uniformColumn, uniformColumn, PosColumn.mk.injEq] at hfirst
    have hlast : seq.kvCacheTokensNum + 1 = seq.tokens.length := by omega
    have hq := qSeqLen_eq allowedMaxTokens
      (show seq.kvCacheTokensNum ≤ seq.tokens.length by omega)
    exact ⟨by omega, hallowed, .inr ⟨hkv, hlast⟩⟩
  · rintro ⟨hpadded, hallowed, ⟨hzero, -, -⟩ | ⟨-, hlast⟩⟩
    · omega
    · have hq : seq.qSeqLen allowedMaxTokens = 1 := by
        rw [qSeqLen_eq allowedMaxTokens (by omega)]
        omega
      have hcolumn := sequenceColumns_behind args spans (n := seq.generated.length)
        (j := seq.kvCacheTokensNum - seq.numPromptTokens) (by omega)
      rw [← hprompt, Nat.add_sub_cancel' hkv] at hcolumn
      refine ⟨_, _, processPositions_eq_ok_iff.mpr
        ⟨hallowed, by omega, _, _, hget, rfl, rfl⟩, ?_, ?_⟩
      · obtain ⟨hlt, hval⟩ := List.getElem?_eq_some_iff.mp hcolumn
        simp only [hq, Nat.add_sub_cancel]
        rw [drop_eq_getElem_cons hlt, hval]
        congr 2
        omega
      · simp only [length_singleton]
        rw [hpadded, hq]

/-- A step appends the columns of its tokens exactly if it takes the whole sequence or its last
token. -/
theorem appendsColumns_iff (hargs : args.Valid) (hspans : ∀ span ∈ spans, span.Valid args)
    (hne : promptTokens args spans ≠ []) (op : MRopeOp) (h : MRopeInv args spans seq) :
    AppendsColumns args spans seq op ↔ TakesWhole args seq op := by
  cases op with
  | append token => exact Iff.rfl
  | preempt => exact Iff.rfl
  | share numTokens => exact Iff.rfl
  | forward allowedMaxTokens cpSize isPrefill =>
      by_cases hkv : seq.kvCacheTokensNum < seq.numPromptTokens
      · exact appendsColumns_prompt hargs hspans hne h hkv allowedMaxTokens cpSize isPrefill
      · exact appendsColumns_behind hne h (by omega) allowedMaxTokens cpSize isPrefill

end Run

/-- Over every run the steps append the columns of their tokens exactly if each of them takes the
whole sequence or its last token. -/
theorem run_appendsColumns_iff {args : MRopeArgs} {spans : List MMSpan} (hargs : args.Valid)
    (hspans : ∀ span ∈ spans, span.Valid args) (hne : promptTokens args spans ≠ [])
    (ops : List MRopeOp) :
    Along (mropeStep args) (AppendsColumns args spans) (newMRopeSequence args spans) ops ↔
      Along (mropeStep args) (TakesWhole args) (newMRopeSequence args spans) ops :=
  along_congr (fun _ op _ => mropeStep_inv hargs hspans hne op)
    (fun _ op => appendsColumns_iff hargs hspans hne op) (newMRopeSequence_inv hne)

def smallArgs : MRopeArgs where
  modelType := "qwen3_vl"
  imageTokenId := 1
  videoTokenId := 2
  visionStartTokenId := 3
  visionEndTokenId := 4
  imageStartTokenId := 5
  imageEndTokenId := 6
  videoStartTokenId := 7
  videoEndTokenId := 8
  mmSpatialMergeSize := 2
  mmTokensPerSecond := 2

theorem smallArgs_valid : smallArgs.Valid where
  markers_nodup := by decide
  merge_pos := by decide
  delimiters := by
    intro token htoken
    obtain rfl := List.mem_singleton.mp htoken
    decide

/-- The sequence is preempted behind its first token and computed again as a whole. -/
theorem run_appendsColumns_iff_image :
    Along (mropeStep smallArgs) (AppendsColumns smallArgs [.image 1 1 2])
      (newMRopeSequence smallArgs [.image 1 1 2])
      [.forward 8 1 true, .append 9, .forward 1 1 false, .append 9, .preempt, .forward 8 1 true,
        .append 9, .forward 1 1 false] :=
  (run_appendsColumns_iff smallArgs_valid (by simp [MMSpan.Valid]) (by decide) _).mpr (by decide)

/-- A prompt of four tokens that is prefilled in two chunks gets the columns of all of them with
the first chunk. -/
theorem chunk_appends_all :
    ¬ Along (mropeStep smallArgs) (AppendsColumns smallArgs [.image 1 1 2])
      (newMRopeSequence smallArgs [.image 1 1 2]) [.forward 2 1 true, .forward 2 1 true] := by
  rintro ⟨⟨appended, next, hprocess, -, hcount⟩, -⟩
  have hvalue : (processPositions smallArgs 2 1 true
      (newMRopeSequence smallArgs [.image 1 1 2])).map
        (fun r => (r.1.positions.length, r.1.numTokens)) = .ok (4, 2) := by decide
  rw [hprocess] at hvalue
  simp only [Except.map, Except.ok.injEq, Prod.mk.injEq] at hvalue
  omega

end Xllm
