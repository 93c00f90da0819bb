import Xllm.Request.BeamSearch

/-!
# The accumulated log probability of a beam

`LogprobState` adds log probabilities up lazily: `get_acc_logprob` and `get_base_logprob`
continue from the index that the accumulated value has reached. Both are the sums that they
stand for as long as no position that is already counted is written again. Fake tokens break
that: their positions are counted before the real token arrives.
-/

namespace Xllm

open Contract TopK List

variable {R : Type} [AddCommGroup R]

def beamScore (history : List (Token × R)) : R := (history.map Prod.snd).sum

namespace BeamSequence

variable (seq : BeamSequence R)

/-- The generated tokens and their log probabilities. -/
def history : List (Token × R) := seq.generated.map fun token => (token.id, token.value)

/-- The index behind the last real token: behind the cursor stand fake tokens. -/
def realEnd (enableScheduleOverlap : Bool) : Nat :=
  if enableScheduleOverlap then seq.curGeneratedTokenIdx else seq.numTokens

/-- The accumulated value is a sum over real tokens. -/
structure Accounted (enableScheduleOverlap : Bool) : Prop where
  start : seq.promptTokens.length ≤ seq.lastAccTokenIdx
  bound : seq.lastAccTokenIdx ≤ seq.realEnd enableScheduleOverlap
  inside : seq.realEnd enableScheduleOverlap ≤ seq.numTokens
  acc : seq.accLogprob =
    ((seq.generated.take (seq.lastAccTokenIdx - seq.promptTokens.length)).map BeamToken.value).sum

/-- The sequence with another accumulated value. -/
def reaccount (accLogprob : R) (lastAccTokenIdx : Nat) : BeamSequence R :=
  { seq with accLogprob := accLogprob, lastAccTokenIdx := lastAccTokenIdx }

variable {seq} {enableScheduleOverlap : Bool}

theorem beamScore_history :
    beamScore seq.history = (seq.generated.map BeamToken.value).sum := by
  rw [beamScore, history, map_map]
  rfl

theorem Accounted.create (promptTokens : List Token) :
    (create promptTokens : BeamSequence R).Accounted enableScheduleOverlap where
  start := le_refl _
  bound := by
    rw [realEnd]
    split
    · exact le_refl _
    · exact Nat.le_add_right _ _
  inside := by
    rw [realEnd]
    split
    · exact Nat.le_add_right _ _
    · exact le_refl _
  acc := by simp [BeamSequence.create]

theorem Accounted.add_between (h : seq.Accounted enableScheduleOverlap) {stop : Nat}
    (hstop : seq.lastAccTokenIdx ≤ stop) :
    seq.accLogprob + seq.logprobsBetween seq.lastAccTokenIdx stop =
      ((seq.generated.take (stop - seq.promptTokens.length)).map BeamToken.value).sum := by
  have hle : seq.lastAccTokenIdx - seq.promptTokens.length ≤ stop - seq.promptTokens.length :=
    Nat.sub_le_sub_right hstop _
  have hsplit := take_append_drop (seq.lastAccTokenIdx - seq.promptTokens.length)
    (seq.generated.take (stop - seq.promptTokens.length))
  rw [take_take, Nat.min_eq_left hle] at hsplit
  conv_rhs => rw [← hsplit]
  rw [map_append, sum_append, logprobsBetween, h.acc]

theorem Accounted.reaccount (h : seq.Accounted enableScheduleOverlap) {stop : Nat}
    (hstart : seq.promptTokens.length ≤ stop) (hstop : stop ≤ seq.realEnd enableScheduleOverlap) :
    (seq.reaccount ((seq.generated.take (stop - seq.promptTokens.length)).map
      BeamToken.value).sum stop).Accounted enableScheduleOverlap where
  start := hstart
  bound := hstop
  inside := h.inside
  acc := rfl

omit [AddCommGroup R] in
theorem ok_reaccount_self {x y : R} (h : x = y) :
    (.ok (x, seq) : Except BeamCheck (R × BeamSequence R)) =
      .ok (y, seq.reaccount seq.accLogprob seq.lastAccTokenIdx) := by
  rw [h]
  rfl

/-- `get_acc_logprob` is the sum over all tokens when none of them is fake. -/
theorem Accounted.getAccLogprob (h : seq.Accounted enableScheduleOverlap)
    (real : seq.realEnd enableScheduleOverlap = seq.numTokens) :
    ∃ acc idx, seq.getAccLogprob = .ok (beamScore seq.history, seq.reaccount acc idx) ∧
      (seq.reaccount acc idx).Accounted enableScheduleOverlap := by
  have hall : seq.generated.take (seq.numTokens - seq.promptTokens.length) = seq.generated :=
    take_of_length_le (by rw [numTokens]; omega)
  have hbound := h.bound
  rw [real] at hbound
  rw [BeamSequence.getAccLogprob, beamScore_history]
  by_cases heq : seq.numTokens = seq.lastAccTokenIdx
  · refine ⟨seq.accLogprob, seq.lastAccTokenIdx, ?_, h⟩
    rw [if_pos heq]
    apply ok_reaccount_self
    rw [h.acc, ← heq, hall]
  · have hsum := h.add_between hbound
    rw [hall] at hsum
    refine ⟨_, seq.numTokens, ?_, h.reaccount (h.start.trans hbound) real.ge⟩
    rw [if_neg heq, if_pos ⟨by omega, h.start⟩, hall, hsum]
    rfl

theorem Accounted.getBaseLogprob (h : seq.Accounted enableScheduleOverlap)
    (real : seq.realEnd enableScheduleOverlap = seq.numTokens) :
    ∃ acc idx, seq.getBaseLogprob = .ok (beamScore seq.history.dropLast, seq.reaccount acc idx) ∧
      (seq.reaccount acc idx).Accounted enableScheduleOverlap := by
  have hbase : beamScore seq.history.dropLast =
      ((seq.generated.take (seq.numTokens - 1 - seq.promptTokens.length)).map
        BeamToken.value).sum := by
    have hlen : seq.numTokens - 1 - seq.promptTokens.length = seq.generated.length - 1 := by
      rw [numTokens]
      omega
    rw [beamScore, history, ← map_dropLast, map_map, hlen, dropLast_eq_take]
    rfl
  have hbound := h.bound
  rw [BeamSequence.getBaseLogprob]
  split
  · rename_i hfew
    refine ⟨seq.accLogprob, seq.lastAccTokenIdx, ?_, h⟩
    have hnil : seq.history.dropLast = [] := by
      rw [dropLast_eq_take, history, length_map]
      exact List.take_eq_nil_iff.mpr (.inl (by omega))
    apply ok_reaccount_self
    rw [hnil]
    rfl
  rename_i hmany
  have hpos : seq.promptTokens.length < seq.numTokens := by
    rw [numTokens]
    omega
  obtain ⟨before, last, hsplit⟩ : ∃ before last, seq.generated = before ++ [last] := by
    refine eq_nil_or_concat' _ |>.resolve_left ?_
    intro hnil
    rw [hnil] at hmany
    exact hmany (Nat.zero_le _)
  have htotal : beamScore seq.history = beamScore seq.history.dropLast + last.value := by
    rw [beamScore, beamScore, history, hsplit]
    simp
  have hacc : seq.lastAccTokenIdx = seq.numTokens → seq.accLogprob = beamScore seq.history := by
    intro heq
    rw [h.acc, heq, beamScore_history, take_of_length_le (by rw [numTokens]; omega)]
  split
  · rename_i heq
    refine ⟨seq.accLogprob, seq.lastAccTokenIdx, ?_, h⟩
    have hlast : seq.generated.getLast? = some last := by rw [hsplit, getLast?_concat]
    rw [hlast]
    cases hlogprob : last.logprob with
    | none =>
        have hvalue : last.value = 0 := by rw [BeamToken.value, hlogprob, Option.getD_none]
        rw [hvalue, add_zero] at htotal
        simp only [Option.bind_some, hlogprob]
        apply ok_reaccount_self
        rw [hacc heq, htotal]
    | some logprob =>
        have hvalue : last.value = logprob := by rw [BeamToken.value, hlogprob, Option.getD_some]
        rw [hvalue] at htotal
        simp only [Option.bind_some, hlogprob]
        apply ok_reaccount_self
        rw [hacc heq, htotal, add_sub_cancel_right]
  dsimp only
  split
  · rename_i heq
    refine ⟨seq.accLogprob, seq.lastAccTokenIdx, ?_, h⟩
    apply ok_reaccount_self
    rw [hbase, h.acc, heq]
  · rename_i hne'
    have hlt : seq.lastAccTokenIdx < seq.numTokens - 1 := by omega
    refine ⟨_, seq.numTokens - 1, ?_, h.reaccount (by omega) (by omega)⟩
    rw [if_pos hlt, h.add_between hlt.le, hbase]
    rfl

end BeamSequence

end Xllm
