import Xllm.Request.Generation

/-!
# Stopping in front of fake tokens

Under schedule overlap the tokens of a sequence can end with fake ones when
`StoppingChecker::check` looks at them. All tests but one go by the last real token and
the number of tokens up to it. Stop sequences are compared with the end of the whole
slice, so behind a fake token none of them is found.
-/

namespace Xllm.StoppingChecker

open List

variable {checker : StoppingChecker} {ids fakes stopSequence : List Token} {token : Token}
variable {stopSequences : List (List Token)} {numPromptTokens : Nat}

theorem matchSuffix_iff : matchSuffix ids stopSequence = true ↔ stopSequence <:+ ids := by
  rw [matchSuffix, suffix_iff_eq_drop]
  split
  · rename_i hempty
    subst hempty
    simp
  · split
    · rename_i hshort
      refine iff_of_false Bool.false_ne_true fun heq => ?_
      have hlength := congrArg List.length heq
      rw [length_drop] at hlength
      omega
    · rw [beq_iff_eq]
      exact eq_comm

theorem getLast?_of_suffix (hne : stopSequence ≠ []) (h : stopSequence <:+ ids ++ [token]) :
    stopSequence.getLast? = some token := by
  obtain ⟨front, hfront⟩ := h
  have hlast := congrArg List.getLast? hfront
  rwa [getLast?_append_of_ne_nil _ hne, getLast?_concat] at hlast

theorem checkStopSequences_ne_stop {fake : Token} (hfake : fake ≠ token) :
    checkStopSequences (ids ++ [fake]) token stopSequences ≠ .ok .stop := by
  induction stopSequences with
  | nil => simp [checkStopSequences]
  | cons stopSequence rest ih =>
      rw [checkStopSequences]
      cases hback : stopSequence.getLast? with
      | none => simp
      | some back =>
          have hne : stopSequence ≠ [] := by
            rintro rfl
            cases hback
          simp only
          rw [if_neg]
          · exact ih
          · rintro ⟨rfl, hmatch⟩
            have hlast := getLast?_of_suffix hne (matchSuffix_iff.mp hmatch)
            rw [hback, Option.some_inj] at hlast
            exact hfake hlast.symm

/-- The fake token hides exactly the stop sequences that the real tokens end with, as far
as the loop gets: an empty stop sequence has no last token. -/
theorem checkStopSequences_fake_iff {fake : Token} (hfake : fake ≠ token) :
    checkStopSequences (ids ++ [token] ++ fakes ++ [fake]) token stopSequences =
        checkStopSequences (ids ++ [token]) token stopSequences ↔
      ∀ s ∈ stopSequences.takeWhile (· ≠ []), ¬s <:+ ids ++ [token] := by
  induction stopSequences with
  | nil => simp [checkStopSequences]
  | cons stopSequence rest ih =>
      rw [checkStopSequences, checkStopSequences]
      cases hback : stopSequence.getLast? with
      | none =>
          rw [List.getLast?_eq_none_iff.mp hback]
          simp
      | some back =>
          have hne : stopSequence ≠ [] := by
            rintro rfl
            cases hback
          have hhidden : ¬(back = token ∧
              matchSuffix (ids ++ [token] ++ fakes ++ [fake]) stopSequence = true) := by
            rintro ⟨rfl, hmatch⟩
            have hlast := getLast?_of_suffix hne (matchSuffix_iff.mp hmatch)
            rw [hback, Option.some_inj] at hlast
            exact hfake hlast.symm
          rw [takeWhile_cons_of_pos (by simpa using hne), forall_mem_cons]
          simp only
          rw [if_neg hhidden]
          by_cases hsuffix : stopSequence <:+ ids ++ [token]
          · have hlast := getLast?_of_suffix hne hsuffix
            rw [hback, Option.some_inj] at hlast
            rw [if_pos ⟨hlast, matchSuffix_iff.mpr hsuffix⟩]
            refine iff_of_false (checkStopSequences_ne_stop hfake) fun h => h.1 hsuffix
          · rw [if_neg fun h => hsuffix (matchSuffix_iff.mp h.2), ih]
            simp [hsuffix]

/-- One of the tests in front of the stop sequences decides, or none is looked at. -/
def DecidesBefore (checker : StoppingChecker) (ids : List Token) (numPromptTokens : Nat) : Prop :=
  { checker with stopSequences := [] }.check ids numPromptTokens ≠ .ok .none ∨
    checker.ignoreEos = true

theorem check_append_fakes (checker : StoppingChecker) (hreal : ¬token < 0)
    (hfakes : ∀ t ∈ fakes, t < 0) (numPromptTokens : Nat) :
    checker.check (ids ++ [token] ++ fakes) numPromptTokens =
      if 0 < checker.maxGeneratedTokens ∧
          checker.maxGeneratedTokens ≤ Sequence.subSize (ids.length + 1) numPromptTokens then
        .ok .length
      else if 0 < checker.maxContextLen ∧ checker.maxContextLen ≤ ids.length + 1 then
        if numPromptTokens ≤ ids.length + 1 then .ok .length else .error .stoppingCheck
      else if checker.ignoreEos then .ok .none
      else if token = checker.eosToken then .ok .stop
      else if token ∈ checker.stopTokens then .ok .stop
      else checkStopSequences (ids ++ [token] ++ fakes) token checker.stopSequences := by
  have hlast : lastValid (ids ++ [token] ++ fakes) = some (token, ids.length + 1) := by
    rw [append_assoc]
    exact lastValid_append hreal hfakes
  rw [check, if_neg (by simp), hlast]

/-- `k` fake tokens behind the real ones. -/
def padded (ids : List Token) (k : Nat) : List Token := ids ++ List.replicate k (-1)

theorem check_only_fakes (checker : StoppingChecker) (hfakes : ∀ t ∈ fakes, t < 0)
    (hne : fakes ≠ []) (numPromptTokens : Nat) :
    checker.check fakes numPromptTokens = .error .outOfBounds := by
  have hdrop : fakes.reverse.dropWhile (· < 0) = [] := by
    rw [← append_nil fakes.reverse, dropWhile_append_of_pos (by simpa using hfakes)]
    rfl
  rw [check, if_neg hne, lastValid, hdrop]

/-- With a fake token behind the real ones, only the verdict of a stop sequence is lost. -/
theorem check_fake_iff (checker : StoppingChecker) {fake : Token} (hreal : ¬token < 0)
    (hfake : fake < 0) (hfakes : ∀ t ∈ fakes, t < 0) (numPromptTokens : Nat) :
    (checker.check (ids ++ [token] ++ (fakes ++ [fake])) numPromptTokens =
        checker.check (ids ++ [token]) numPromptTokens) ↔
      checker.DecidesBefore (ids ++ [token]) numPromptTokens ∨
        ∀ s ∈ checker.stopSequences.takeWhile (· ≠ []), ¬s <:+ ids ++ [token] := by
  have hne : fake ≠ token := by
    rintro rfl
    exact hreal hfake
  have hall : ∀ t ∈ fakes ++ [fake], t < 0 := by
    intro t ht
    rcases List.mem_append.mp ht with ht | ht
    · exact hfakes t ht
    · exact List.mem_singleton.mp ht ▸ hfake
  have hunpadded : ∀ checker : StoppingChecker, checker.check (ids ++ [token]) numPromptTokens =
      checker.check (ids ++ [token] ++ []) numPromptTokens := fun _ => by rw [append_nil]
  rw [DecidesBefore, hunpadded checker, hunpadded { checker with stopSequences := [] },
    check_append_fakes checker hreal hall, check_append_fakes checker hreal (by simp),
    check_append_fakes _ hreal (by simp)]
  by_cases hgenerated : 0 < checker.maxGeneratedTokens ∧
      checker.maxGeneratedTokens ≤ Sequence.subSize (ids.length + 1) numPromptTokens
  · simp [hgenerated]
  by_cases hcontext : 0 < checker.maxContextLen ∧ checker.maxContextLen ≤ ids.length + 1
  · by_cases hprompt : numPromptTokens ≤ ids.length + 1 <;> simp [hgenerated, hcontext, hprompt]
  simp only [if_neg hgenerated, if_neg hcontext]
  by_cases hignore : checker.ignoreEos = true
  · simp [hignore]
  by_cases heos : token = checker.eosToken
  · simp [heos]
  by_cases hstop : token ∈ checker.stopTokens
  · simp [hstop]
  simp only [hignore, Bool.false_eq_true, if_false, if_neg heos, if_neg hstop, checkStopSequences,
    ne_eq, not_true_eq_false, false_or]
  rw [← append_assoc, append_nil]
  exact checkStopSequences_fake_iff hne

theorem check_eq_length_iff (checker : StoppingChecker) (hreal : ¬token < 0)
    (hfakes : ∀ t ∈ fakes, t < 0) (hprompt : numPromptTokens ≤ ids.length + 1)
    (hmax : 0 < checker.maxGeneratedTokens) :
    checker.check (ids ++ [token] ++ fakes) numPromptTokens = .ok .length ↔
      checker.maxGeneratedTokens ≤ ids.length + 1 - numPromptTokens ∨
        0 < checker.maxContextLen ∧ checker.maxContextLen ≤ ids.length + 1 := by
  have hloop : ∀ stopSequences : List (List Token),
      checkStopSequences (ids ++ [token] ++ fakes) token stopSequences ≠ .ok .length := by
    intro stopSequences
    induction stopSequences with
    | nil => simp [checkStopSequences]
    | cons stopSequence rest ih =>
        rw [checkStopSequences]
        split
        · simp
        · split
          · simp
          · exact ih
  rw [check_append_fakes checker hreal hfakes, Sequence.subSize, if_pos hprompt]
  by_cases hgenerated : checker.maxGeneratedTokens ≤ ids.length + 1 - numPromptTokens
  · simp [hmax, hgenerated]
  by_cases hcontext : 0 < checker.maxContextLen ∧ checker.maxContextLen ≤ ids.length + 1
  · simp [hcontext, hprompt]
  rw [if_neg (fun h => hgenerated h.2), if_neg hcontext]
  refine iff_of_false ?_ (not_or.mpr ⟨hgenerated, hcontext⟩)
  split
  · simp
  · split
    · simp
    · split
      · simp
      · exact hloop _

/-- Fake tokens change the verdict exactly if the verdict is that of a stop sequence. By
length a sequence stops with the same real tokens in either case. -/
theorem check_padded_iff (checker : StoppingChecker) (hreal : ∀ t ∈ ids, ¬t < 0)
    (numPromptTokens k : Nat) :
    ((checker.check (padded ids k) numPromptTokens = checker.check ids numPromptTokens) ↔
      k = 0 ∨ ids ≠ [] ∧ (checker.DecidesBefore ids numPromptTokens ∨
        ∀ s ∈ checker.stopSequences.takeWhile (· ≠ []), ¬s <:+ ids)) ∧
    (ids ≠ [] → numPromptTokens ≤ ids.length → 0 < checker.maxGeneratedTokens →
      (checker.check (padded ids k) numPromptTokens = .ok .length ↔
        checker.maxGeneratedTokens ≤ ids.length - numPromptTokens ∨
          0 < checker.maxContextLen ∧ checker.maxContextLen ≤ ids.length)) := by
  have hpad : ∀ k, ∀ t ∈ List.replicate k (-1 : Token), t < 0 := by
    intro k t ht
    rw [eq_of_mem_replicate ht]
    decide
  obtain rfl | ⟨front, token, rfl⟩ := eq_nil_or_concat' ids
  · refine ⟨?_, fun hne => absurd rfl hne⟩
    cases k with
    | zero => simp [padded]
    | succ k =>
        rw [padded, nil_append, check_only_fakes checker (hpad _) (by simp), check]
        simp
  · have htoken : ¬token < 0 := hreal token (by simp)
    constructor
    · cases k with
      | zero => simp [padded]
      | succ k =>
          rw [padded, replicate_succ', check_fake_iff checker htoken (by decide) (hpad k)]
          simp
    · intro _ hprompt hmax
      rw [length_append] at hprompt ⊢
      exact check_eq_length_iff checker htoken (hpad k) hprompt hmax

theorem twoTokens_real : ∀ t ∈ ([1, 5] : List Token), ¬t < 0 := by
  intro t ht
  simp only [mem_cons, not_mem_nil, or_false] at ht
  rcases ht with rfl | rfl <;> decide

theorem check_padded_iff_other_sequence :
    ({ stopSequences := [[7]] } : StoppingChecker).check (padded [1, 5] 2) 1 =
      ({ stopSequences := [[7]] } : StoppingChecker).check [1, 5] 1 := by
  refine (check_padded_iff { stopSequences := [[7]] } twoTokens_real 1 2).1.mpr ?_
  refine .inr ⟨cons_ne_nil _ _, .inr ?_⟩
  intro s hs
  obtain rfl : s = [7] := by simpa using hs
  decide

/-- The real tokens end with the stop sequence, and a fake token behind them hides it. -/
theorem stop_sequence_hidden :
    ¬∀ (checker : StoppingChecker) (ids : List Token) (numPromptTokens k : Nat),
      (∀ t ∈ ids, ¬t < 0) → numPromptTokens ≤ ids.length → ids ≠ [] →
        checker.check (padded ids k) numPromptTokens = checker.check ids numPromptTokens := by
  intro h
  have hsame := h { stopSequences := [[5]] } [1, 5] 1 1 twoTokens_real (by decide) (by decide)
  exact absurd hsame (by decide)

end Xllm.StoppingChecker
