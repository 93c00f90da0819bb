import Xllm.Batch.Multithreaded

/-!
# Sampler rows and output targets

Two traversals of a batch decide which rows the sampler returns. The builder adds
a row when it comes to a token whose logits are needed, with a cursor over the
sample slots of the sequence. `refresh_output_targets` lists the slots whose source
lies in the chunk that is computed. The rows of every batch that can be built are the
listed targets, in the same order.
-/

namespace Xllm

open Contract List

/-- In a list that is sorted by `f`, the elements with `f` from `a` up to `c` are
those with `f` equal to `a`, followed by the others. -/
theorem filter_range_eq_append {α : Type} {f : α → Nat} {l : List α}
    (hl : l.Pairwise fun x y => f x ≤ f y) {a c : Nat} (hac : a < c) :
    (l.filter fun x => a ≤ f x && f x < c) =
      (l.filter fun x => f x = a) ++ l.filter fun x => a + 1 ≤ f x && f x < c := by
  induction l with
  | nil => rfl
  | cons x l ih =>
      obtain ⟨hx, hl⟩ := List.pairwise_cons.mp hl
      have ih := ih hl
      rcases Nat.lt_trichotomy (f x) a with hlt | heq | hgt
      · rw [filter_cons_of_neg (by simp; omega), filter_cons_of_neg (by simp; omega),
          filter_cons_of_neg (by simp; omega), ih]
      · rw [filter_cons_of_pos (by simp; omega), filter_cons_of_pos (by simp; omega),
          filter_cons_of_neg (by simp; omega), ih, cons_append]
      · have hnone : (l.filter fun y => f y = a) = [] := by
          rw [filter_eq_nil_iff]
          intro y hy
          have := hx y hy
          simp
          omega
        rw [hnone] at ih
        rw [filter_cons_of_neg (p := fun y => decide (f y = a)) (by simp; omega), hnone,
          filter_cons, filter_cons, ih]
        congr 1
        simp
        omega

namespace BatchInputBuilder

variable {b : BatchInputBuilder} {seq : BatchSequence} {index : Nat}

theorem handleSamplingParameters_rows (target : OutputTarget) (s : BuilderState) :
    IfOk (b.handleSamplingParameters seq target s) (fun s' => s'.rows = s.rows ++ [target]) := by
  rw [handleSamplingParameters]
  split
  · exact rfl
  · split
    · exact trivial
    · exact rfl

/-- At a position the cursor leaves the slots whose source lies behind it, and adds a
row for each slot whose source it is. -/
theorem sampleAt_rows (j : Nat) {slots : List SampleSlot}
    (hsorted : slots.Pairwise fun a b => a.sourcePosition ≤ b.sourcePosition) (s : BuilderState) :
    IfOk (b.sampleAt seq index j slots s) (fun r =>
      (r.1 = slots.filter fun slot => j + 1 ≤ slot.sourcePosition) ∧
      r.2.rows = s.rows ++ (slots.filter fun slot => slot.sourcePosition = j).map
        fun slot => ⟨index, slot.sampleId, true⟩) := by
  induction slots generalizing s with
  | nil => exact ⟨rfl, (append_nil _).symm⟩
  | cons slot slots ih =>
      obtain ⟨hfirst, hsorted⟩ := List.pairwise_cons.mp hsorted
      rw [sampleAt]
      split_ifs with hbefore hbehind
      · rw [filter_cons_of_neg (by simp; omega), filter_cons_of_neg (by simp; omega)]
        exact ih hsorted s
      · have hlater : ∀ other ∈ slots, j < other.sourcePosition :=
          fun other hother => hbehind.trans_le (hfirst other hother)
        constructor
        · refine (List.filter_eq_self.mpr fun other hother => ?_).symm
          rcases List.mem_cons.mp hother with rfl | hother
          · exact decide_eq_true hbehind
          · exact decide_eq_true (hlater other hother)
        · rw [List.filter_eq_nil_iff.mpr]
          · exact (append_nil _).symm
          · intro other hother
            rcases List.mem_cons.mp hother with rfl | hother
            · simp
              omega
            · have := hlater other hother
              simp
              omega
      · refine (handleSamplingParameters_rows _ s).bind fun s' hs' => ?_
        refine (ih hsorted s').mono_post fun r hr => ?_
        rw [filter_cons_of_neg (by simp; omega), filter_cons_of_pos (by simp; omega),
          hr.2, hs', append_assoc]
        exact ⟨hr.1, rfl⟩

theorem lt_numTokens_of_getElem? {seq : Sequence} {j : Nat} {token : Token}
    (h : seq.tokens[j]? = some token) : j < seq.numTokens := by
  have hlt := (List.getElem?_eq_some_iff.mp h).1
  rw [Sequence.tokens, length_take] at hlt
  omega

theorem extractToken_foldlM_rows_slots (hslots : seq.sampleSlots ≠ []) (n k : Nat)
    {slots : List SampleSlot}
    (hsorted : slots.Pairwise fun a b => a.sourcePosition ≤ b.sourcePosition) (s : BuilderState) :
    IfOk ((List.range' k n).foldlM (b.extractToken seq index) (slots, s))
      (fun r => (0 < n → k < seq.numTokens) ∧ r.2.rows = s.rows ++ (slots.filter fun slot =>
        k ≤ slot.sourcePosition && slot.sourcePosition < k + n).map
          fun slot => ⟨index, slot.sampleId, true⟩) := by
  induction n generalizing k slots s with
  | zero =>
      rw [List.filter_eq_nil_iff.mpr]
      · exact ⟨fun h => absurd h (by decide), (append_nil _).symm⟩
      · intro slot _
        simp
  | succ n ih =>
      rw [range'_succ, foldlM_cons, extractToken]
      split
      · exact trivial
      · rename_i token htoken
        have hk := lt_numTokens_of_getElem? htoken
        rw [if_neg hslots]
        refine (sampleAt_rows k hsorted (b.pushToken token k s)).bind fun r hr => ?_
        obtain ⟨rest, s'⟩ := r
        obtain ⟨hrest, hrows⟩ := hr
        subst hrest
        refine (ih (k + 1) (hsorted.filter _) s').mono_post fun r hr => ?_
        have hfilter : ((slots.filter fun slot => k + 1 ≤ slot.sourcePosition).filter fun slot =>
              k + 1 ≤ slot.sourcePosition && slot.sourcePosition < k + 1 + n) =
            slots.filter fun slot =>
              k + 1 ≤ slot.sourcePosition && slot.sourcePosition < k + (n + 1) := by
          rw [filter_filter]
          refine filter_congr fun slot _ => ?_
          rw [show k + 1 + n = k + (n + 1) by omega, Bool.and_comm, ← Bool.and_assoc,
            Bool.and_self]
        rw [hr.2, hrows, hfilter,
          filter_range_eq_append (a := k) (c := k + (n + 1)) hsorted (by omega), map_append,
          ← append_assoc]
        exact ⟨fun _ => hk, rfl⟩

theorem extractToken_foldlM_rows (hslots : seq.sampleSlots = []) (n k : Nat)
    (slots : List SampleSlot) (s : BuilderState) :
    IfOk ((List.range' k n).foldlM (b.extractToken seq index) (slots, s))
      (fun r => (0 < n → k + n ≤ seq.numTokens) ∧
        r.2.rows = s.rows ++ if 0 < n ∧ k + n = seq.numTokens then [⟨index, 0, false⟩]
          else []) := by
  induction n generalizing k slots s with
  | zero => exact ⟨fun h => absurd h (by decide), (append_nil _).symm⟩
  | succ n ih =>
      rw [range'_succ, foldlM_cons, extractToken]
      split
      · exact trivial
      · rename_i token htoken
        have hk := lt_numTokens_of_getElem? htoken
        rw [if_pos hslots]
        split
        case isTrue hmore =>
          refine (ih (k + 1) slots (b.pushToken token k s)).mono_post fun r hr => ?_
          obtain ⟨hle, hrows⟩ := hr
          refine ⟨fun _ => by omega, hrows.trans ?_⟩
          congr 1
          refine if_congr ?_ rfl rfl
          omega
        case isFalse hlast =>
          refine Ensures.bind (Q := fun r => r.2.rows = s.rows ++ [⟨index, 0, false⟩]) ?_ ?_
          · exact (handleSamplingParameters_rows _ _).bind fun s' hs' => hs'
          · intro r hr
            -- behind the last token there is no further one
            refine (ih (k + 1) r.1 r.2).mono_post fun r' hr' => ?_
            obtain ⟨hle, hrows⟩ := hr'
            rw [if_neg (by omega), append_nil] at hrows
            rw [if_pos (by omega), hrows]
            exact ⟨fun _ => by omega, hr⟩

theorem foldl_pushToken_rows (positions : List Nat) (s : BuilderState) :
    (positions.foldl (fun s j => b.pushToken b.padTokenId j s) s).rows = s.rows := by
  induction positions generalizing s with
  | nil => rfl
  | cons j positions ih => exact ih (b.pushToken b.padTokenId j s)

theorem addExtraToken_rows (seqLen : Nat) (s : BuilderState) :
    IfOk (addExtraToken seq seqLen s) (fun s' => s'.rows = s.rows) := by
  rw [addExtraToken]
  split
  · exact rfl
  · split
    · exact trivial
    · exact rfl

theorem setupKvCacheInfo_rows (slotIds : List Int) (nKvCacheTokens seqLen : Nat)
    (s : BuilderState) : IfOk (setupKvCacheInfo seq slotIds nKvCacheTokens seqLen s)
      (fun s' => s'.rows = s.rows) := by
  rw [setupKvCacheInfo]
  split
  · exact trivial
  · exact rfl

theorem extractTokensAndPositions_rows (entry : BatchEntry) (index paddedSeqLen : Nat) {q : Nat}
    (hq : q = min (Sequence.subUInt32 entry.sequence.numTokens
      entry.sequence.kvState.kvCacheTokensNum) entry.allowedMaxTokens) (hpos : 0 < q)
    (s : BuilderState) : IfOk (b.extractTokensAndPositions entry.sequence index
        entry.sequence.kvState.kvCacheTokensNum (q + entry.sequence.kvState.kvCacheTokensNum)
        paddedSeqLen s)
      (fun s' => ∃ new, sequenceTargets entry index = .ok new ∧ s'.rows = s.rows ++ new) := by
  simp only [extractTokensAndPositions, Nat.add_sub_cancel]
  generalize hstart : (if b.useMrope = true then _ else s) = start
  have hrows : start.rows = s.rows := by
    rw [← hstart]
    split_ifs <;> rfl
  suffices hfold : IfOk
      ((List.range' entry.sequence.kvState.kvCacheTokensNum q).foldlM
        (b.extractToken entry.sequence index) (entry.sequence.sampleSlots, start))
      (fun r => ∃ new, sequenceTargets entry index = .ok new ∧ r.2.rows = s.rows ++ new) by
    refine hfold.bind fun r hr => ?_
    obtain ⟨new, hnew, hr⟩ := hr
    refine (addExtraToken_rows _ _).mono_post fun s' hs' => ⟨new, hnew, ?_⟩
    rw [hs', foldl_pushToken_rows, hr]
  by_cases hslots : entry.sequence.sampleSlots = []
  · refine (extractToken_foldlM_rows hslots q _ _ _).mono_post fun r hr => ?_
    rw [hrows] at hr
    refine ⟨_, ?_, hr.2⟩
    rw [Sequence.subUInt32, if_pos (by omega)] at hq
    rw [sequenceTargets]
    rw [if_neg (by omega), if_neg (by omega), if_pos hslots, ← hq, Nat.add_comm q,
      ← apply_ite Except.ok]
    refine congrArg Except.ok (if_congr ?_ rfl rfl)
    simp [hpos]
  · refine (extractToken_foldlM_rows_slots hslots q _
      entry.sequence.slotsListed.sorted_source _).mono_post fun r hr => ?_
    rw [hrows] at hr
    refine ⟨_, ?_, hr.2⟩
    rw [Sequence.subUInt32, if_pos (by omega)] at hq
    rw [sequenceTargets]
    rw [if_neg (by omega), if_neg (by omega), if_neg hslots, ← hq, Nat.add_comm q]

theorem querySeqLen_pos (seq : Sequence) (allowedMaxTokens cpSize : Nat) (isPrefill : Bool) :
    IfOk (seq.processSingleSequence allowedMaxTokens cpSize isPrefill)
      (fun _ => 0 < (seq.querySeqLen allowedMaxTokens cpSize isPrefill).1) := by
  refine ensures_of_forall_ok fun r hr => ?_
  rw [Sequence.processSingleSequence] at hr
  dsimp only at hr
  split at hr
  case isTrue hchecks => exact hchecks.2.2
  case isFalse => cases hr

theorem processSingleSequence_rows (entry : BatchEntry × Nat) (s : BuilderState) :
    IfOk (b.processSingleSequence s entry) (fun s' =>
      ∃ new, sequenceTargets entry.1 entry.2 = .ok new ∧ s'.rows = s.rows ++ new) := by
  refine (querySeqLen_pos _ _ _ _).bind fun kv hpos => ?_
  refine (extractTokensAndPositions_rows entry.1 entry.2 _ rfl hpos _).bind fun s₁ hs₁ => ?_
  refine (setupKvCacheInfo_rows _ _ _ s₁).bind fun s₂ hs₂ => ?_
  obtain ⟨new, hnew, hrows⟩ := hs₁
  exact ⟨new, hnew, hs₂.trans hrows⟩

theorem foldlM_processSingleSequence_rows (entries : List (BatchEntry × Nat)) (s : BuilderState) :
    IfOk (entries.foldlM b.processSingleSequence s) (fun s' =>
      entries.foldlM (fun targets entry => do
        let new ← sequenceTargets entry.1 entry.2
        .ok (targets ++ new)) s.rows = .ok s'.rows) := by
  induction entries generalizing s with
  | nil => exact rfl
  | cons entry entries ih =>
      refine (processSingleSequence_rows entry s).bind fun s' hs' => ?_
      obtain ⟨new, hnew, hrows⟩ := hs'
      refine (ih s').mono_post fun s'' hs'' => ?_
      rw [foldlM_cons, hnew]
      change entries.foldlM _ (s.rows ++ new) = _
      rw [← hrows]
      exact hs''

/-- Every batch that the builder accepts has one target for each row, in the same
order, whether the sequences are processed by one thread or by many. -/
theorem rows_eq_outputTargets (b : BatchInputBuilder) (ft : BatchForwardType)
    (threadPool : Option Nat) (entries : List BatchEntry) {s : BuilderState}
    (hbuild : b.processSequences ft threadPool entries = .ok s) :
    refreshOutputTargets entries = .ok s.rows ∧ s.rows.length = s.selectedTokenIdxes.length := by
  have hsequential : ∀ s, b.processSequencesSequentially ft entries = .ok s →
      refreshOutputTargets entries = .ok s.rows ∧
        s.rows.length = s.selectedTokenIdxes.length := by
    intro s hs
    have hgood := (Chunks.Commutes.foldlM
      (fun entry => commutes_processSingleSequence (mergeable_emptyState b ft) entry)
      entries.zipIdx (b.emptyState ft) (mergeable_emptyState b ft)).2
    exact ⟨(foldlM_processSingleSequence_rows entries.zipIdx (b.emptyState ft)).of_ok hs,
      (hgood.of_ok hs).rowed⟩
  cases threadPool with
  | none => exact hsequential s hbuild
  | some size =>
      rw [processSequences] at hbuild
      split at hbuild
      case isFalse => exact hsequential s hbuild
      case isTrue =>
        rcases Nat.eq_zero_or_pos size with rfl | hsize
        · cases hbuild
        · rw [processSequencesMultithreaded_eq b ft hsize] at hbuild
          cases hs : b.processSequencesSequentially ft entries with
          | error e =>
              rw [hs] at hbuild
              cases hbuild
          | ok s' =>
              rw [hs] at hbuild
              cases hbuild
              exact hsequential s' hs

def fourTokenEntry (computed allowedMaxTokens : Nat) (positions : List Nat)
    (hpositions : SlotsListed (positions.map fun i => ⟨"r", i, i⟩)) : BatchEntry where
  sequence :=
    { tokenBuffer := [3, 4, 5, 6, 0]
      numTokens := 4
      numPromptTokens := 4
      volatileNumPromptTokens := 4
      kvState :=
        { kvCacheTokensNum := computed
          blocks := [{ id := 1, size := 4, refCount := some 0 }] }
      sampleSlots := positions.map fun i => ⟨"r", i, i⟩
      slotsListed := hpositions }
  allowedMaxTokens := allowedMaxTokens

theorem rows_eq_outputTargets_mixed :
    ∃ s, processSequences ⟨.cuda, false, true, 1, 0, false, fun _ => []⟩ .mixed (some 2)
        [fourTokenEntry 0 3 [] (by decide), fourTokenEntry 3 8 [] (by decide),
          fourTokenEntry 0 2 [0, 1, 3] (by decide), fourTokenEntry 2 2 [0, 1, 3] (by decide)] =
        .ok s ∧
      refreshOutputTargets
        [fourTokenEntry 0 3 [] (by decide), fourTokenEntry 3 8 [] (by decide),
          fourTokenEntry 0 2 [0, 1, 3] (by decide), fourTokenEntry 2 2 [0, 1, 3] (by decide)] =
        .ok s.rows ∧
      s.rows = [⟨1, 0, false⟩, ⟨2, 0, true⟩, ⟨2, 1, true⟩, ⟨3, 3, true⟩] := by
  have hbuild : ∃ s, processSequences ⟨.cuda, false, true, 1, 0, false, fun _ => []⟩ .mixed (some 2)
        [fourTokenEntry 0 3 [] (by decide), fourTokenEntry 3 8 [] (by decide),
          fourTokenEntry 0 2 [0, 1, 3] (by decide), fourTokenEntry 2 2 [0, 1, 3] (by decide)] =
        .ok s ∧ s.rows = [⟨1, 0, false⟩, ⟨2, 0, true⟩, ⟨2, 1, true⟩, ⟨3, 3, true⟩] := ⟨_, rfl, rfl⟩
  obtain ⟨s, hs, hrows⟩ := hbuild
  exact ⟨s, hs, (rows_eq_outputTargets _ _ _ _ hs).1, hrows⟩

end BatchInputBuilder

end Xllm
