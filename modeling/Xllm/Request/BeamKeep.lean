import Mathlib.Algebra.Order.Monoid.Unbundled.Basic
import Xllm.Request.BeamScores

/-!
# The beams that are kept

A beam that has received a token since the last search contributes the extensions of what it
was before by the candidates of that token, every other beam contributes itself. The kept
beams are the best of all contributions. `process_beam_search` gets there when no beam ends
with a fake token and no beam has old candidates: it always reads the candidates at the last
position.
-/

namespace Xllm

open Contract TopK List

theorem pairwise_zip {α β : Type} [LE β] {l : List α} {xs : List β}
    (h : xs.Pairwise fun a b => b ≤ a) : (l.zip xs).Pairwise fun a b => b.2 ≤ a.2 := by
  induction l generalizing xs with
  | nil => exact .nil
  | cons a l ih =>
      cases xs with
      | nil => exact .nil
      | cons x xs =>
          obtain ⟨hx, hxs⟩ := List.pairwise_cons.mp h
          refine List.pairwise_cons.mpr ⟨fun p hp => ?_, ih hxs⟩
          exact hx p.2 (of_mem_zip hp).2

variable {R : Type} [AddCommGroup R] [LinearOrder R]

/-- The candidates of a token come best first, as `topk` returns them. -/
def BeamToken.Ordered (token : BeamToken R) : Prop :=
  token.topLogprobs.Pairwise fun a b => b ≤ a

namespace BeamSearch

variable (c : BeamSearch R)

/-- What a beam contributes to a search. The fake tokens at its end do not count. -/
def contributions (seq : BeamSequence R) : List (List (Token × R)) :=
  let real := seq.generated.take
    (seq.realEnd c.enableScheduleOverlap - seq.promptTokens.length)
  let history := real.map fun token => (token.id, token.value)
  match seq.updatedSinceLastBeamSearch, real.getLast? with
  | true, some last =>
      let tops := (last.topTokens.zip last.topLogprobs).take c.topk
      if tops = [] then [history]
      else tops.map fun top => history.dropLast ++ [(top.1.toInt32, top.2)]
  | _, _ => [history]

/-- The beam has no fake tokens, and new candidates if any. -/
structure ReadyBeam (seq : BeamSequence R) : Prop where
  real : seq.realEnd c.enableScheduleOverlap = seq.numTokens
  fresh : seq.updatedSinceLastBeamSearch = true ∨ c.finished seq.tokens = true ∨ c.lastTops seq = []

/-- A beam that the operations of a group keep. -/
structure BeamInv (promptTokens : List Token) (seq : BeamSequence R) : Prop where
  accounted : seq.Accounted c.enableScheduleOverlap
  prompt : seq.promptTokens = promptTokens
  ordered : ∀ token ∈ seq.generated, token.Ordered

structure KeptBeam (promptTokens : List Token) (seq : BeamSequence R) : Prop where
  inv : c.BeamInv promptTokens seq
  real : seq.realEnd c.enableScheduleOverlap = seq.numTokens
  exact : seq.accLogprob = beamScore seq.history
  complete : seq.lastAccTokenIdx = seq.numTokens

def candidatesOf (index : Nat) (seq : BeamSequence R) : List (BeamCandidate R) :=
  if c.KeepsSelf seq then [selfCandidate index (beamScore seq.history)]
  else (c.lastTops seq).map (extension index (beamScore seq.history.dropLast))

def allCandidates : Nat → List (BeamSequence R) → List (BeamCandidate R)
  | _, [] => []
  | index, seq :: rest => c.candidatesOf index seq ++ allCandidates (index + 1) rest

variable {c} {seq : BeamSequence R} {index : Nat}

theorem pairwise_extension [IsOrderedAddMonoid R] (ordered : ∀ token ∈ seq.generated, token.Ordered)
    (index : Nat) (base : R) :
    ((c.lastTops seq).map (extension index base)).Pairwise
      fun a b => b.logprobSum ≤ a.logprobSum := by
  rw [pairwise_map]
  have hpairwise : (c.lastTops seq).Pairwise fun a b => b.2 ≤ a.2 := by
    rw [lastTops]
    split
    · exact .nil
    · rename_i last hlast
      have hlast := ordered last (mem_of_getLast? hlast)
      exact (pairwise_zip hlast).sublist (take_sublist _ _)
  exact hpairwise.imp fun h => add_le_add_right h base

/-- The tokens of one beam: the heap holds the best candidates so far. -/
theorem considerBeam_ensures [IsOrderedAddMonoid R] {all heap : List (BeamCandidate R)}
    (accounted : seq.Accounted c.enableScheduleOverlap)
    (real : seq.realEnd c.enableScheduleOverlap = seq.numTokens)
    (ordered : ∀ token ∈ seq.generated, token.Ordered)
    (best : Best BeamCandidate.logprobSum c.beamWidth all heap) :
    Yields (c.considerBeam heap index seq) (fun r =>
      Best BeamCandidate.logprobSum c.beamWidth (c.candidatesOf index seq ++ all) r.1 ∧
      ∃ acc idx, r.2 = seq.reaccount acc idx) := by
  rw [considerBeam, candidatesOf]
  by_cases hself : c.KeepsSelf seq
  · obtain ⟨acc, idx, hacc, -⟩ := accounted.getAccLogprob real
    rw [if_pos hself, if_pos hself, hacc]
    exact ⟨Queue.insert_best best, acc, idx, rfl⟩
  · obtain ⟨acc, idx, hbase, -⟩ := accounted.getBaseLogprob real
    rw [if_neg hself, if_neg hself, hbase]
    exact ⟨Queue.insertWhile_best best (pairwise_extension ordered index _), acc, idx, rfl⟩

variable {group : List (BeamSequence R)}

/-- The beams of a group in turn. -/
theorem considerBeams_ensures [IsOrderedAddMonoid R] {all heap : List (BeamCandidate R)}
    (beams : ∀ seq ∈ group, seq.Accounted c.enableScheduleOverlap ∧
      seq.realEnd c.enableScheduleOverlap = seq.numTokens ∧ ∀ token ∈ seq.generated, token.Ordered)
    (best : Best BeamCandidate.logprobSum c.beamWidth all heap) :
    Yields (c.considerBeams index group heap) (fun r =>
      Best BeamCandidate.logprobSum c.beamWidth (c.allCandidates index group ++ all) r.1 ∧
      Forall₂ (fun seq after => ∃ acc idx, after = seq.reaccount acc idx) group r.2) := by
  induction group generalizing index all heap with
  | nil => exact ⟨best, .nil⟩
  | cons seq rest ih =>
      obtain ⟨⟨haccounted, hreal, hordered⟩, hrest⟩ := List.forall_mem_cons.mp beams
      refine (considerBeam_ensures haccounted hreal hordered best).bind ?_
      rintro ⟨heap', after⟩ ⟨hbest, hafter⟩
      refine (ih hrest hbest).bind ?_
      rintro ⟨heap'', rest'⟩ ⟨hbest', hrest'⟩
      refine ⟨hbest'.perm_all ?_, .cons hafter hrest'⟩
      rw [allCandidates, append_assoc]
      exact perm_append_comm_assoc _ _ _

def historyOf (group : List (BeamSequence R)) (candidate : BeamCandidate R) : List (Token × R) :=
  match group[candidate.sourceIndex]? with
  | none => []
  | some source => newTokens source candidate

/-- The candidate names a beam, and its sum is the score of its history. -/
def Fits (group : List (BeamSequence R)) (candidate : BeamCandidate R) : Prop :=
  candidate.sourceIndex < group.length ∧
    beamScore (historyOf group candidate) = candidate.logprobSum

omit [LinearOrder R] in
omit [LinearOrder R] in
theorem newTokens_extension (hgenerated : seq.generated ≠ []) (base : R) (top : Int64 × R) :
    newTokens seq (extension index base top) =
      seq.history.dropLast ++ [(top.1.toInt32, top.2)] := by
  obtain ⟨before, last, hsplit⟩ := (eq_nil_or_concat' _).resolve_left hgenerated
  change seq.history.set (seq.history.length - 1) _ = _
  rw [BeamSequence.history, hsplit, map_append, map_singleton, dropLast_concat,
    length_append, length_singleton, Nat.add_sub_cancel,
    set_append_right _ _ (le_refl _), Nat.sub_self]
  rfl

omit [AddCommGroup R] in
theorem generated_ne_nil (h : c.lastTops seq ≠ []) : seq.generated ≠ [] := by
  intro hnil
  refine h ?_
  rw [lastTops, hnil]
  rfl

variable {candidate : BeamCandidate R}

theorem newTokens_score (h : candidate ∈ c.candidatesOf index seq) :
    candidate.sourceIndex = index ∧ beamScore (newTokens seq candidate) = candidate.logprobSum := by
  rw [candidatesOf] at h
  split at h
  · rw [List.mem_singleton.mp h]
    exact ⟨rfl, rfl⟩
  · rename_i hself
    obtain ⟨top, -, rfl⟩ := List.mem_map.mp h
    refine ⟨rfl, ?_⟩
    rw [newTokens_extension (generated_ne_nil fun htops => hself (.inr htops))]
    simp [beamScore, extension]

theorem fits_allCandidates (before : List (BeamSequence R))
    (h : candidate ∈ c.allCandidates before.length group) : Fits (before ++ group) candidate := by
  induction group generalizing before with
  | nil => exact absurd h not_mem_nil
  | cons seq rest ih =>
      obtain h | h := List.mem_append.mp h
      · obtain ⟨hindex, hscore⟩ := newTokens_score h
        constructor
        · rw [length_append, length_cons]
          omega
        · rw [historyOf, hindex, getElem?_append_right (le_refl _), Nat.sub_self]
          exact hscore
      · have hrest := ih (before ++ [seq]) (by
          rwa [length_append])
        rwa [append_assoc] at hrest

theorem historyOf_candidatesOf (ready : c.ReadyBeam seq) :
    (c.candidatesOf index seq).map (newTokens seq) = c.contributions seq := by
  have hreal : seq.generated.take
      (seq.realEnd c.enableScheduleOverlap - seq.promptTokens.length) = seq.generated := by
    rw [ready.real, BeamSequence.numTokens]
    exact take_of_length_le (by omega)
  have hself : c.KeepsSelf seq → (c.candidatesOf index seq).map (newTokens seq) =
    [seq.history] := by
    intro hself
    rw [candidatesOf, if_pos hself]
    rfl
  rw [contributions, hreal]
  cases hupdated : seq.updatedSinceLastBeamSearch with
  | false =>
      apply hself
      obtain hfresh | hfinished | htops := ready.fresh
      · rw [hupdated] at hfresh
        cases hfresh
      · exact .inl ⟨hfinished, hupdated⟩
      · exact .inr htops
  | true =>
      cases hlast : seq.generated.getLast? with
      | none =>
          apply hself
          right
          rw [lastTops, hlast]
      | some last =>
          have htops : c.lastTops seq = (last.topTokens.zip last.topLogprobs).take c.topk := by
            rw [lastTops, hlast]
          simp only
          rw [← htops]
          split
          · rename_i hnil
            exact hself (.inr hnil)
          · rename_i hne
            have hextend : ¬c.KeepsSelf seq := by
              rintro (hfinished | hnil)
              · rw [hupdated] at hfinished
                exact absurd hfinished.2 (by decide)
              · exact hne hnil
            rw [candidatesOf, if_neg hextend, map_map]
            refine map_congr_left fun top _ => ?_
            exact newTokens_extension (generated_ne_nil hne) _ top

theorem map_historyOf (before : List (BeamSequence R)) (ready : ∀ seq ∈ group, c.ReadyBeam seq) :
    (c.allCandidates before.length group).map (historyOf (before ++ group)) =
      group.flatMap c.contributions := by
  induction group generalizing before with
  | nil => rfl
  | cons seq rest ih =>
      obtain ⟨hseq, hrest⟩ := List.forall_mem_cons.mp ready
      have htail := ih (before ++ [seq]) hrest
      rw [length_append, append_assoc] at htail
      rw [allCandidates, map_append, flatMap_cons, ← historyOf_candidatesOf hseq]
      refine congrArg₂ _ (map_congr_left fun candidate hcandidate => ?_) htail
      rw [historyOf, (newTokens_score hcandidate).1, getElem?_append_right (le_refl _),
        Nat.sub_self]
      rfl

omit [LinearOrder R] in
theorem history_zipWith {old : List (BeamToken R)} {new : List (Token × R)}
    (h : old.length = new.length) :
    (old.zipWith updateToken new).map (fun token => (token.id, token.value)) = new := by
  induction old generalizing new with
  | nil => exact (List.length_eq_zero_iff.mp h.symm).symm
  | cons token old ih =>
      cases new with
      | nil => cases h
      | cons pair new => exact congrArg (pair :: ·) (ih (Nat.succ.inj h))

variable {token : BeamToken R}

omit [AddCommGroup R] [LinearOrder R] in
theorem mem_zipWith_updateToken {old : List (BeamToken R)} {new : List (Token × R)}
    (h : token ∈ old.zipWith updateToken new) :
    ∃ before ∈ old, token.topLogprobs = before.topLogprobs := by
  induction old generalizing new with
  | nil => exact absurd h not_mem_nil
  | cons head old ih =>
      cases new with
      | nil => exact absurd h not_mem_nil
      | cons pair new =>
          obtain rfl | h := List.mem_cons.mp h
          · exact ⟨head, mem_cons_self, rfl⟩
          · obtain ⟨before, hbefore, heq⟩ := ih h
            exact ⟨before, mem_cons_of_mem _ hbefore, heq⟩

omit [LinearOrder R] in
@[simp] theorem length_newTokens (source : BeamSequence R) (candidate : BeamCandidate R) :
    (newTokens source candidate).length = source.generated.length := by
  rw [newTokens]
  split
  · rw [List.length_set, length_map]
  · rw [length_map]

variable (c) in
/-- What `buildBeam` needs of the beams of a group. -/
structure SlotInv (promptTokens : List Token) (seq : BeamSequence R) : Prop where
  prompt : seq.promptTokens = promptTokens
  real : seq.realEnd c.enableScheduleOverlap = seq.numTokens
  ordered : ∀ token ∈ seq.generated, token.Ordered

variable {promptTokens : List Token}

omit [AddCommGroup R] in
theorem slotInv_nextSeq {source : BeamSequence R}
    (slots : ∀ seq ∈ group, c.SlotInv promptTokens seq) (hsource : source ∈ group) :
    c.SlotInv promptTokens (nextSeq group index source) ∧
      (nextSeq group index source).generated.length = source.generated.length := by
  rw [nextSeq]
  split
  · exact ⟨slots source hsource, rfl⟩
  · rename_i own hown
    split
    · rename_i hfits
      exact ⟨slots own (mem_of_getElem? hown), hfits.2⟩
    · exact ⟨slots source hsource, rfl⟩

theorem keptBeam_rewriteBeam {source next : BeamSequence R}
    (needSwap : Bool) (slot : c.SlotInv promptTokens next)
    (same : next.generated.length = source.generated.length)
    (score : beamScore (newTokens source candidate) = candidate.logprobSum) :
    (rewriteBeam source candidate needSwap next).history = newTokens source candidate ∧
      c.KeptBeam promptTokens (rewriteBeam source candidate needSwap next) := by
  have hzip : next.generated.length = (newTokens source candidate).length := by
    rw [same, length_newTokens]
  have hhistory : (rewriteBeam source candidate needSwap next).history =
      newTokens source candidate := history_zipWith hzip
  have hcount : (rewriteBeam source candidate needSwap next).numTokens = next.numTokens := by
    simp only [BeamSequence.numTokens, rewriteBeam, length_zipWith, ← hzip, Nat.min_self]
  have hend : (rewriteBeam source candidate needSwap next).realEnd c.enableScheduleOverlap =
      (rewriteBeam source candidate needSwap next).numTokens := by
    have hreal := slot.real
    rw [BeamSequence.realEnd] at hreal ⊢
    rw [hcount]
    split
    · rename_i hoverlap
      rwa [if_pos hoverlap] at hreal
    · rfl
  have hexact : (rewriteBeam source candidate needSwap next).accLogprob =
      beamScore (rewriteBeam source candidate needSwap next).history := by
    rw [hhistory, score]
    rfl
  have hcomplete : (rewriteBeam source candidate needSwap next).lastAccTokenIdx =
      (rewriteBeam source candidate needSwap next).numTokens := hcount.symm
  refine ⟨hhistory, ⟨⟨?_, ?_, hend.le, ?_⟩, slot.prompt, ?_⟩, hend, hexact, hcomplete⟩
  · exact Nat.le_add_right _ _
  · rw [hend, hcomplete]
  · rw [hexact, hcomplete, BeamSequence.beamScore_history, take_of_length_le]
    rw [BeamSequence.numTokens]
    omega
  · intro token htoken
    obtain ⟨before, hbefore, htops⟩ := mem_zipWith_updateToken htoken
    rw [BeamToken.Ordered, htops]
    exact slot.ordered before hbefore

/-- A new beam has the history of its candidate. -/
theorem buildBeam_ensures {needSwap : Bool} (slots : ∀ seq ∈ group, c.SlotInv promptTokens seq)
    (fits : Fits group candidate) : Yields (buildBeam group needSwap index candidate) (fun beam =>
      beam.history = historyOf group candidate ∧ c.KeptBeam promptTokens beam) := by
  obtain ⟨hindex, hscore⟩ := fits
  obtain ⟨source, hsource⟩ : ∃ source, group[candidate.sourceIndex]? = some source :=
    ⟨_, getElem?_eq_getElem hindex⟩
  simp only [historyOf, hsource] at hscore ⊢
  rw [buildBeam, hsource]
  obtain ⟨hslot, hlength⟩ := slotInv_nextSeq slots (mem_of_getElem? hsource)
  exact keptBeam_rewriteBeam needSwap hslot hlength hscore

theorem buildBeams_ensures {reused : List Nat} {candidates : List (BeamCandidate R)}
    (slots : ∀ seq ∈ group, c.SlotInv promptTokens seq)
    (fits : ∀ candidate ∈ candidates, Fits group candidate) :
    Yields (buildBeams group reused index candidates) (fun beams =>
      beams.map BeamSequence.history = candidates.map (historyOf group) ∧
      ∀ beam ∈ beams, c.KeptBeam promptTokens beam) := by
  induction candidates generalizing reused index with
  | nil => exact ⟨rfl, fun _ hbeam => absurd hbeam not_mem_nil⟩
  | cons candidate rest ih =>
      obtain ⟨hfits, hrest⟩ := List.forall_mem_cons.mp fits
      refine (buildBeam_ensures slots hfits).bind fun beam hbeam => ?_
      refine (ih hrest).bind fun beams hbeams => ?_
      constructor
      · rw [map_cons, map_cons, hbeam.1, hbeams.1]
      · exact List.forall_mem_cons.mpr ⟨hbeam.2, hbeams.2⟩

def SameTokens (before after : BeamSequence R) : Prop :=
  ∃ acc idx updated, after =
    { before.reaccount acc idx with updatedSinceLastBeamSearch := updated }

omit [LinearOrder R] in
theorem historyOf_sameTokens {group after : List (BeamSequence R)}
    (same : Forall₂ SameTokens group after) (candidate : BeamCandidate R) :
    historyOf after candidate = historyOf group candidate := by
  rw [historyOf, historyOf]
  generalize candidate.sourceIndex = index
  induction same generalizing index with
  | nil => rfl
  | cons hsame _ ih =>
      cases index with
      | zero =>
          obtain ⟨acc, idx, updated, rfl⟩ := hsame
          rfl
      | succ index => exact ih index

omit [AddCommGroup R] in
theorem slotInv_sameTokens {group after : List (BeamSequence R)}
    (same : Forall₂ SameTokens group after)
    (slots : ∀ seq ∈ group, c.SlotInv promptTokens seq) :
    ∀ seq ∈ after, c.SlotInv promptTokens seq := by
  induction same with
  | nil => exact slots
  | cons hsame _ ih =>
      obtain ⟨hslot, hrest⟩ := List.forall_mem_cons.mp slots
      refine List.forall_mem_cons.mpr ⟨?_, ih hrest⟩
      obtain ⟨acc, idx, updated, rfl⟩ := hsame
      exact ⟨hslot.prompt, hslot.real, hslot.ordered⟩

theorem candidatesOf_ne_nil (c : BeamSearch R) (index : Nat) (seq : BeamSequence R) :
    c.candidatesOf index seq ≠ [] := by
  rw [candidatesOf]
  split
  · exact cons_ne_nil _ _
  · rename_i hself
    exact fun h => hself (.inr (List.map_eq_nil_iff.mp h))

/-- A search of a group that is ready keeps the best of all contributions, and knows the
score of every beam that it keeps. -/
theorem processBeamSearch_ensures [IsOrderedAddMonoid R]
    (inv : ∀ seq ∈ group, c.BeamInv promptTokens seq) (ready : ∀ seq ∈ group, c.ReadyBeam seq) :
    Yields (c.processBeamSearch group) (fun kept =>
      Best beamScore c.beamWidth (group.flatMap c.contributions)
        (kept.map BeamSequence.history) ∧
      ∀ beam ∈ kept, c.KeptBeam promptTokens beam) := by
  have hconsider : Yields (c.considerBeams 0 group []) (fun r =>
      Best BeamCandidate.logprobSum c.beamWidth (c.allCandidates 0 group ++ []) r.1 ∧
      Forall₂ (fun seq after => ∃ acc idx, after = seq.reaccount acc idx) group r.2) :=
    considerBeams_ensures
      (fun seq hseq => ⟨(inv seq hseq).accounted, (ready seq hseq).real, (inv seq hseq).ordered⟩)
      Best.nil
  refine hconsider.bind ?_
  rintro ⟨heap, after⟩ ⟨hbest, hafter⟩
  rw [append_nil] at hbest
  have hsorted : (c.queue.sorted heap).Perm heap := Queue.sorted_perm
  have hkept := hbest.perm_kept hsorted.symm
  have hsame : Forall₂ SameTokens group
      (after.map fun seq => { seq with updatedSinceLastBeamSearch := false }) := by
    refine List.forall₂_map_right_iff.mpr (hafter.imp ?_)
    rintro seq _ ⟨acc, idx, rfl⟩
    exact ⟨acc, idx, false, rfl⟩
  have hslots := slotInv_sameTokens hsame fun seq hseq =>
    (⟨(inv seq hseq).prompt, (ready seq hseq).real, (inv seq hseq).ordered⟩ :
      c.SlotInv promptTokens seq)
  have hfits : ∀ candidate ∈ c.allCandidates 0 group, Fits group candidate :=
    fun candidate hcandidate => fits_allCandidates [] hcandidate
  have hhistory : Best beamScore c.beamWidth (group.flatMap c.contributions)
      ((c.queue.sorted heap).map (historyOf group)) := by
    rw [← map_historyOf [] ready]
    exact hkept.map (historyOf group) fun candidate hcandidate => (hfits candidate hcandidate).2
  have htake : (c.queue.sorted heap).take c.beamWidth = c.queue.sorted heap := by
    apply take_of_length_le
    rw [hkept.length]
    exact Nat.min_le_left _ _
  simp only
  split
  · rename_i hnone
    have hgroup : group = [] := by
      have hlength := hkept.length
      have hwide := c.wide
      rw [hnone, length_nil] at hlength
      cases group with
      | nil => rfl
      | cons seq rest =>
          have hpos := List.length_pos_iff.mpr (candidatesOf_ne_nil c 0 seq)
          rw [allCandidates, length_append] at hlength
          omega
    subst hgroup
    cases hafter
    exact ⟨Best.nil, fun _ hbeam => absurd hbeam not_mem_nil⟩
  · rw [htake]
    refine (buildBeams_ensures hslots fun candidate hcandidate => ?_).mono_post ?_
    · obtain ⟨hindex, hscore⟩ := hfits candidate (hkept.mem hcandidate)
      constructor
      · rwa [← hsame.length_eq]
      · rw [historyOf_sameTokens hsame]
        exact hscore
    · rintro beams ⟨hbeams, hbeam⟩
      refine ⟨?_, hbeam⟩
      rw [hbeams, map_congr_left fun candidate _ => historyOf_sameTokens hsame candidate]
      exact hhistory

def start (promptTokens : List Token) : List (BeamSequence R) := [BeamSequence.create promptTokens]

variable (c) in
/-- What the batch and the sampler see to. With overlap a step appends a fake token, which a
later one replaces; candidates come best first. -/
def Formed (group : List (BeamSequence R)) : Op R → Prop
  | .append index token =>
      index < group.length ∧ (c.enableScheduleOverlap = true → token.id < 0) ∧ token.Ordered
  | .update index token => c.enableScheduleOverlap = true ∧ token.Ordered ∧
      ∃ seq ∈ group[index]?, seq.curGeneratedTokenIdx < seq.numTokens
  | .account index => index < group.length
  | .search => True

variable (c) in
/-- No fake token is in the way of the operation, and no beam has only old candidates. -/
def ReadyOp (group : List (BeamSequence R)) : Op R → Prop
  | .account index => ∀ seq ∈ group[index]?, seq.realEnd c.enableScheduleOverlap = seq.numTokens
  | .search => ∀ seq ∈ group, c.ReadyBeam seq
  | _ => True

omit [AddCommGroup R] in
theorem ordered_updateLogprob {old token : BeamToken R} (hold : old.Ordered)
    (htoken : token.Ordered) (numTopTokens : Nat) :
      (old.updateLogprob token numTopTokens).Ordered := by
  rw [BeamToken.updateLogprob]
  split
  · exact List.Pairwise.sublist (take_sublist _ _) htoken
  · exact hold

theorem accounted_of_take {before after : BeamSequence R}
    (h : before.Accounted c.enableScheduleOverlap)
    (prompt : after.promptTokens = before.promptTokens)
    (acc : after.accLogprob = before.accLogprob)
    (idx : after.lastAccTokenIdx = before.lastAccTokenIdx)
    (bound : before.realEnd c.enableScheduleOverlap ≤ after.realEnd c.enableScheduleOverlap)
    (inside : after.realEnd c.enableScheduleOverlap ≤ after.numTokens)
    (same : after.generated.take (before.lastAccTokenIdx - before.promptTokens.length) =
      before.generated.take (before.lastAccTokenIdx - before.promptTokens.length)) :
    after.Accounted c.enableScheduleOverlap where
  start := by
    rw [prompt, idx]
    exact h.start
  bound := by
    rw [idx]
    exact h.bound.trans bound
  inside := inside
  acc := by
    rw [acc, idx, prompt, same]
    exact h.acc

theorem beamInv_appendToken (inv : c.BeamInv promptTokens seq)
    (fake : c.enableScheduleOverlap = true → token.id < 0)
    (ordered : token.Ordered) :
    c.BeamInv promptTokens (seq.appendToken token c.enableScheduleOverlap c.topLogprobs) := by
  have hcounted : seq.lastAccTokenIdx - seq.promptTokens.length ≤ seq.generated.length := by
    have hbound := inv.accounted.bound.trans inv.accounted.inside
    rw [BeamSequence.numTokens] at hbound
    omega
  have hinside := inv.accounted.inside
  have hempty : ({ id := token.id } : BeamToken R).Ordered := List.Pairwise.nil
  rw [BeamSequence.appendToken]
  split
  · rename_i hfake
    refine ⟨accounted_of_take inv.accounted rfl rfl rfl ?_ ?_ ?_, inv.prompt, ?_⟩
    · simp only [BeamSequence.realEnd, if_pos hfake.1]
      exact le_refl _
    · simp only [BeamSequence.realEnd, if_pos hfake.1] at hinside ⊢
      simp only [BeamSequence.numTokens, length_append] at hinside ⊢
      omega
    · exact take_append_of_le_length hcounted
    · intro other hother
      obtain hother | hother := List.mem_append.mp hother
      · exact inv.ordered other hother
      · rw [List.mem_singleton.mp hother]
        exact hempty
  · rename_i hplain
    have hoff : ¬c.enableScheduleOverlap = true := fun hoverlap => hplain ⟨hoverlap, fake hoverlap⟩
    refine ⟨accounted_of_take inv.accounted rfl rfl rfl ?_ ?_ ?_, inv.prompt, ?_⟩
    · simp only [BeamSequence.realEnd, if_neg hoff, BeamSequence.numTokens, length_append]
      omega
    · simp only [BeamSequence.realEnd, if_neg hoff]
      exact le_refl _
    · exact take_append_of_le_length hcounted
    · intro other hother
      obtain hother | hother := List.mem_append.mp hother
      · exact inv.ordered other hother
      · rw [List.mem_singleton.mp hother]
        exact ordered_updateLogprob hempty ordered _

theorem beamInv_updateLastStepToken (inv : c.BeamInv promptTokens seq)
    (overlap : c.enableScheduleOverlap = true) (ordered : token.Ordered)
    (fake : seq.curGeneratedTokenIdx < seq.numTokens) :
    Yields (seq.updateLastStepToken token c.topLogprobs) (c.BeamInv promptTokens) := by
  have hbound := inv.accounted.bound
  have hstart := inv.accounted.start
  rw [BeamSequence.realEnd, if_pos overlap] at hbound
  have hlt : seq.curGeneratedTokenIdx - seq.promptTokens.length < seq.generated.length := by
    rw [BeamSequence.numTokens] at fake
    omega
  rw [BeamSequence.updateLastStepToken, getElem?_eq_getElem hlt]
  refine ⟨accounted_of_take inv.accounted rfl rfl rfl ?_ ?_ ?_, inv.prompt, ?_⟩
  · simp only [BeamSequence.realEnd, if_pos overlap]
    exact Nat.le_succ _
  · simp only [BeamSequence.realEnd, if_pos overlap]
    simp only [BeamSequence.numTokens, List.length_set] at fake ⊢
    exact fake
  · exact take_set_of_le (by omega)
  · intro other hother
    obtain hother | rfl := mem_or_eq_of_mem_set hother
    · exact inv.ordered other hother
    · exact ordered_updateLogprob (inv.ordered _ (getElem_mem hlt)) ordered _

theorem modifyAt_ensures {f : BeamSequence R → Except BeamCheck (BeamSequence R)}
    (inv : ∀ seq ∈ group, c.BeamInv promptTokens seq) (hseq : group[index]? = some seq)
    (hf : Yields (f seq) (c.BeamInv promptTokens)) : Yields (modifyAt group index f)
      (fun after => ∀ seq ∈ after, c.BeamInv promptTokens seq) := by
  rw [modifyAt, hseq]
  refine hf.bind fun after hafter => ?_
  intro other hother
  obtain hother | rfl := mem_or_eq_of_mem_set hother
  · exact inv other hother
  · exact hafter

/-- Step lemma: a search and an appended token keep the beams accounted for. -/
theorem step_inv [IsOrderedAddMonoid R] {op : Op R}
    (inv : ∀ seq ∈ group, c.BeamInv promptTokens seq) (formed : c.Formed group op)
    (ready : c.ReadyOp group op) : Yields (c.step group op)
      (fun after => ∀ seq ∈ after, c.BeamInv promptTokens seq) := by
  cases op with
  | append index token =>
      obtain ⟨hindex, hfake, hordered⟩ := formed
      have hseq := getElem?_eq_getElem hindex
      have hinv := inv _ (mem_of_getElem? hseq)
      exact modifyAt_ensures inv hseq (beamInv_appendToken hinv hfake hordered)
  | update index token =>
      obtain ⟨hoverlap, hordered, seq, hseq, hfake⟩ := formed
      have hinv := inv _ (mem_of_getElem? hseq)
      exact modifyAt_ensures inv hseq
        (beamInv_updateLastStepToken hinv hoverlap hordered hfake)
  | account index =>
      have hseq := getElem?_eq_getElem formed
      have hinv := inv _ (mem_of_getElem? hseq)
      obtain ⟨acc, idx, hacc, haccounted⟩ := hinv.accounted.getAccLogprob (ready _ hseq)
      refine modifyAt_ensures inv hseq ?_
      rw [hacc]
      exact ⟨haccounted, hinv.prompt, hinv.ordered⟩
  | search =>
      refine (processBeamSearch_ensures inv ready).mono_post ?_
      rintro kept ⟨-, hkept⟩ beam hbeam
      exact (hkept beam hbeam).inv

/-- In every run of a beam group whose operations are ready, a search keeps the best of what
the beams contribute, every kept beam has its exact score, and what `get_acc_logprob` and
`get_base_logprob` return before the search are the sums that they stand for. -/
theorem search_keeps_best [IsOrderedAddMonoid R] (c : BeamSearch R) (promptTokens : List Token)
    {ops : List (Op R)}
    (formed : Along c.step c.Formed (start promptTokens) (ops ++ [.search]))
    (ready : Along c.step c.ReadyOp (start promptTokens) (ops ++ [.search])) :
    Ensures (run c.step (start promptTokens) ops) (fun _ => False) (fun group =>
      Ensures (c.processBeamSearch group) (fun _ => False) (fun kept =>
        Best beamScore c.beamWidth (group.flatMap c.contributions)
          (kept.map BeamSequence.history) ∧
        ∀ beam ∈ kept, beam.promptTokens = promptTokens ∧
          beam.accLogprob = beamScore beam.history ∧ beam.lastAccTokenIdx = beam.numTokens) ∧
      ∀ seq ∈ group,
        Ensures seq.getAccLogprob (fun _ => False) (fun r => r.1 = beamScore seq.history) ∧
        Ensures seq.getBaseLogprob (fun _ => False)
          (fun r => r.1 = beamScore seq.history.dropLast)) := by
  have hinv : Ensures (run c.step (start promptTokens) ops) (fun _ => False)
      (fun group => ∀ seq ∈ group, c.BeamInv promptTokens seq) := by
    refine (formed.of_append.and ready.of_append).ensures_run
      (fun group op inv h => step_inv inv h.1 h.2) ?_
    intro seq hseq
    rw [List.mem_singleton.mp hseq]
    exact ⟨.create promptTokens, rfl, fun _ htoken => absurd htoken not_mem_nil⟩
  obtain ⟨group, hrun, hgroup⟩ := hinv.exists_ok
  have hready : ∀ seq ∈ group, c.ReadyBeam seq := (ready.rest hrun).1
  rw [hrun]
  constructor
  · refine (processBeamSearch_ensures hgroup hready).mono_post fun kept hkept => ?_
    refine ⟨hkept.1, fun beam hbeam => ?_⟩
    have hbeam := hkept.2 beam hbeam
    exact ⟨hbeam.inv.prompt, hbeam.exact, hbeam.complete⟩
  · intro seq hseq
    have haccounted := (hgroup seq hseq).accounted
    have hreal := (hready seq hseq).real
    constructor
    · obtain ⟨acc, idx, hacc, -⟩ := haccounted.getAccLogprob hreal
      rw [hacc]
      exact rfl
    · obtain ⟨acc, idx, hbase, -⟩ := haccounted.getBaseLogprob hreal
      rw [hbase]
      exact rfl

end BeamSearch

def twoBeams (enableScheduleOverlap : Bool) : BeamSearch Int where
  beamWidth := 2
  wide := by decide
  topLogprobs := 2
  enableScheduleOverlap := enableScheduleOverlap
  finished := fun _ => false
  queue := Queue.latest _

def sampledFive : BeamToken Int where
  id := 5
  logprob := some (-1)
  topTokens := [5, 6]
  topLogprobs := [-1, -2]

theorem sampledFive_ordered : sampledFive.Ordered := by
  rw [BeamToken.Ordered]
  decide

/-- One step without overlap. -/
def oneStep : List (BeamSearch.Op Int) := [.append 0 sampledFive]

/-- Two steps with overlap: the second one is in flight when the first one's token comes. -/
def overlappedSteps : List (BeamSearch.Op Int) :=
  [.append 0 { id := -1 }, .append 0 { id := -1 }, .update 0 sampledFive]

theorem BeamSearch.search_keeps_best_oneStep :
    Ensures (run (twoBeams false).step (BeamSearch.start [3]) oneStep) (fun _ => False)
      (fun group =>
        Ensures ((twoBeams false).processBeamSearch group) (fun _ => False) (fun kept =>
          Best beamScore 2 (group.flatMap (twoBeams false).contributions)
            (kept.map BeamSequence.history) ∧
          ∀ beam ∈ kept, beam.promptTokens = [3] ∧
            beam.accLogprob = beamScore beam.history ∧ beam.lastAccTokenIdx = beam.numTokens) ∧
        ∀ seq ∈ group,
          Ensures seq.getAccLogprob (fun _ => False) (fun r => r.1 = beamScore seq.history) ∧
          Ensures seq.getBaseLogprob (fun _ => False)
            (fun r => r.1 = beamScore seq.history.dropLast)) := by
  apply (twoBeams false).search_keeps_best [3]
  · refine ⟨⟨by decide, by decide, sampledFive_ordered⟩, fun t ht => ⟨trivial, fun _ _ => trivial⟩⟩
  · refine ⟨trivial, fun t ht => ⟨?_, fun _ _ => trivial⟩⟩
    cases ht
    intro seq hseq
    rw [List.mem_singleton.mp hseq]
    exact ⟨rfl, .inl rfl⟩

/-- With a fake token at its end a group is not extended at all, and the score of its beam
leaves out what replaces the fake token; without a new token the beams are extended again by
the candidates that they have been chosen from. -/
theorem fake_token_stops_beams :
    Ensures (run (twoBeams true).step (BeamSearch.start [3]) overlappedSteps) (fun _ => False)
      (fun group =>
        Ensures ((twoBeams true).processBeamSearch group) (fun _ => False) (fun kept =>
          ¬Best beamScore 2 (group.flatMap (twoBeams true).contributions)
            (kept.map BeamSequence.history))) ∧
    Ensures (run (twoBeams true).step (BeamSearch.start [3])
        (overlappedSteps ++ [.search, .append 0 { id := -1 }, .update 0 sampledFive, .search]))
      (fun _ => False) (fun kept => ∃ beam ∈ kept, beam.accLogprob ≠ beamScore beam.history) ∧
    Ensures (run (twoBeams false).step (BeamSearch.start [3]) (oneStep ++ [.search, .search]))
      (fun _ => False) (fun kept => kept.map BeamSequence.history = [[(5, -1)], [(5, -1)]]) := by
  refine ⟨?_, ?_, ?_⟩
  · have hlengths : Ensures (run (twoBeams true).step (BeamSearch.start [3]) overlappedSteps)
        (fun _ => False) (fun group =>
          Ensures ((twoBeams true).processBeamSearch group) (fun _ => False) (fun kept =>
            kept.length = 1 ∧ (group.flatMap (twoBeams true).contributions).length = 2)) := by
      decide +kernel
    refine hlengths.mono_post fun group hgroup => hgroup.mono_post ?_
    rintro kept ⟨hkept, hall⟩ hbest
    have hlength := hbest.length
    rw [length_map, hkept, hall] at hlength
    exact absurd hlength (by decide)
  · decide +kernel
  · decide +kernel

end Xllm
