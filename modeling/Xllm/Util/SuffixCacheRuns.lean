import Xllm.Lib.Decimal
import Xllm.Util.SuffixCacheSync

/-!
# Runs of the suffix cache

In every run the containers stay in step, and a call that throws changes nothing, as long as two
things do not happen: a reserved token is appended to a tree, whose `append` or later `remove`
then throws with half of its work done, and a request is cached beyond the `1610612736` keys for
which the map of the ids has room.
-/

namespace Xllm.SuffixCache

open Contract Int32Maps SuffixDecodingCache List Function Option

variable {N : Type} {ops : Nodes N}

/-- Whether the call returned. -/
def SuffixDecodingCache.Outcome.returned : Outcome → Bool
  | .threw => false
  | _ => true

/-- The response of a request since it was last started. -/
def responseOf : List (Op × Outcome) → String → List Int32
  | [], _ => []
  | (op, outcome) :: calls, reqId =>
      if outcome.returned then
        match op with
        | .startRequest r _ => if reqId = r then [] else responseOf calls reqId
        | .addActiveResponse r tokens =>
            if reqId = r then responseOf calls reqId ++ tokens else responseOf calls reqId
        | _ => responseOf calls reqId
      else responseOf calls reqId

/-- The number of the call that last started a request, and zero when none did. -/
def startedAt : List (Op × Outcome) → String → Nat
  | [], _ => 0
  | (op, outcome) :: calls, reqId =>
      if outcome.returned then
        match op with
        | .startRequest r _ => if reqId = r then calls.length + 1 else startedAt calls reqId
        | _ => startedAt calls reqId
      else startedAt calls reqId

/-- The containers of the cache after some calls. -/
structure Correct (w : World N) : Prop where
  inverse : ∀ reqId seqId, w.cache.seqIdOf reqId = some seqId ↔
    w.cache.seqToReqId.find seqId = .ok (some reqId)
  order_nodup : w.cache.cacheOrder.Nodup
  mem_order : ∀ reqId, reqId ∈ w.cache.cacheOrder ↔ w.cache.hasCachedRequest reqId = true
  insertion : w.cache.cacheOrder.Pairwise fun r r' => startedAt w.calls r < startedAt w.calls r'
  bound : 0 < w.cache.maxCachedRequests →
    (w.cache.reqToSeqId.length : Int) ≤ w.cache.maxCachedRequests
  stored : ∀ seqId tokens, w.cache.globalTree.seqs.find seqId = .ok (some tokens) →
    ∃ reqId, w.cache.seqToReqId.find seqId = .ok (some reqId) ∧ tokens = responseOf w.calls reqId
  kept : ∀ reqId seqId, w.cache.seqIdOf reqId = some seqId → responseOf w.calls reqId ≠ [] →
    w.cache.globalTree.seqs.find seqId = .ok (some (responseOf w.calls reqId))

/-- No active tree gets a token that it rejects, the global tree gets no reserved token, and no
request is cached beyond the room of the map. -/
def Fits (w : World N) : Op → Prop
  | .startRequest reqId tokens =>
      w.cache.hasActiveRequest reqId = true ∨ w.cache.maxCachedRequests = 0 ∨
        Rejects w.cache.maxTreeDepth tokens ∨ w.cache.hasCachedRequest reqId = true ∨
          w.cache.reqToSeqId.length < 1610612736 ∨ Recycles w.cache
  | .addActivePrompt reqId tokens =>
      w.cache.hasActiveRequest reqId = false ∨ ¬ Rejects w.cache.maxTreeDepth tokens
  | .addActiveResponse reqId tokens =>
      w.cache.hasActiveRequest reqId = false ∨ (¬ Rejects w.cache.maxTreeDepth tokens ∧
        (w.cache.hasCachedRequest reqId = false ∨ ∀ token ∈ tokens, ¬ Reserved token))
  | _ => True

theorem startedAt_le (calls : List (Op × Outcome)) (reqId : String) :
    startedAt calls reqId ≤ calls.length := by
  induction calls with
  | nil => exact Nat.le_refl 0
  | cons call calls ih =>
      obtain ⟨op, outcome⟩ := call
      have hle : startedAt calls reqId ≤ calls.length + 1 := by omega
      simp only [startedAt]
      split
      · cases op with
        | startRequest r tokens =>
            dsimp only
            split
            · exact Nat.le_refl _
            · exact hle
        | addActivePrompt r tokens => exact hle
        | addActiveResponse r tokens => exact hle
        | stopRequest r => exact hle
        | evictCachedResponse r => exact hle
        | speculate r query => exact hle
      · exact hle

/-- The cache and the calls so far. -/
structure Good (w : World N) : Prop where
  inStep : InStep w.cache (responseOf w.calls) (startedAt w.calls)
  bounded : Bounded w.cache

theorem Good.correct {w : World N} (h : Good w) : Correct w := by
  have hstep := h.inStep
  obtain ⟨g, hglobal, hids, hresponse⟩ := hstep.stored
  have hinverse : ∀ reqId seqId, w.cache.seqIdOf reqId = some seqId ↔
      w.cache.seqToReqId.find seqId = .ok (some reqId) := by
    intro reqId seqId
    rw [hstep.seqIdOf_eq_some, hstep.find_eq_some]
  refine ⟨hinverse, ?_, fun reqId => ?_, hstep.times, fun hpos => h.bounded (le_of_lt hpos),
    fun seqId tokens htokens => ?_, fun reqId seqId hid hsome => ?_⟩
  · rw [hstep.order]
    exact hstep.keyed
  · rw [hstep.mem_order, SuffixDecodingCache.hasCachedRequest, isSome_iff_exists]
    simp only [hstep.seqIdOf_eq_some]
  · rw [hglobal.find, Except.ok.injEq] at htokens
    obtain ⟨reqId, hmem⟩ := hids seqId (by rw [htokens]; exact some_ne_none tokens)
    refine ⟨reqId, (hstep.find_eq_some seqId reqId).mpr hmem, ?_⟩
    rw [← hresponse reqId seqId hmem, htokens, getD_some]
  · have hmem := hstep.seqIdOf_eq_some.mp hid
    have hget := hresponse reqId seqId hmem
    rw [hglobal.find]
    cases hg : g seqId with
    | none =>
        rw [hg] at hget
        exact absurd hget.symm hsome
    | some tokens =>
        rw [hg, getD_some] at hget
        rw [hget]

theorem Good.start (maxTreeDepth maxCachedRequests : Int) :
    Good (World.start ops maxTreeDepth maxCachedRequests) where
  inStep := by
    have hempty : ∀ {T : Type}, Refines ({} : Int32Map T) fun _ => none := .inl ⟨rfl, rfl⟩
    refine ⟨rfl, nodup_nil, ⟨_, hempty, fun id r => iff_of_false nofun nofun⟩,
      ⟨_, hempty, fun id hid => absurd rfl hid, fun r id hmem => ?_⟩, nofun, ?_, .nil, nofun⟩
    · exact absurd hmem not_mem_nil
    · exact (by decide : 0 < seqIdCount)
  bounded := fun hge => hge

def Ends (w : World N) (op : Op) (r : Outcome × SuffixDecodingCache N) : Prop :=
  (r.1.returned = false → r.2 = w.cache) ∧
    Good { cache := r.2, calls := (op, r.1) :: w.calls }

section Calls

variable {w : World N} {reqId : String} {tokens : List Int32} (h : Good w)

include h

theorem Good.threw (op : Op) : Ends w op (.threw, w.cache) :=
  ⟨fun _ => rfl, ⟨h.inStep.congr fun _ _ => ⟨rfl, rfl⟩, h.bounded⟩⟩

theorem Good.extendLocal {localTree : SuffixTree N}
    (hactive : w.cache.localTrees reqId = some localTree)
    (haccepts : ¬ Rejects w.cache.maxTreeDepth tokens) :
    Yields (localTree.extend ops w.cache.maxTreeDepth 0 tokens) (fun r =>
      r.1 = true ∧ ∀ t, some r.2 = some t → ∃ l, Refines t.seqs l ∧ ∀ id, id ≠ 0 →
        l id = none) := by
  obtain ⟨l, hrefines, hothers⟩ := h.inStep.locals reqId localTree hactive
  have hfits : l 0 = none → localTree.seqs.size < 1610612736 := by
    intro _
    have hkeys : ∀ id, l id ≠ none → id ∈ [(0 : Int32)] := by
      intro id hid
      by_contra hne
      exact hid (hothers id fun heq => hne (List.mem_singleton.mpr heq))
    have hle := hrefines.size_le hkeys
    simp only [length_singleton] at hle
    omega
  refine (extend_spec hrefines hfits tokens).mono_post fun r hr => ?_
  have hreturned := hr.1.mpr haccepts
  refine ⟨hreturned, fun t ht => ?_⟩
  obtain ⟨l', hrefines', happended⟩ := hr.2 hreturned
  cases ht
  exact ⟨l', hrefines', fun id hid => (happended.others id hid).trans (hothers id hid)⟩

theorem Good.addActivePrompt (fits : Fits w (.addActivePrompt reqId tokens)) :
    Yields (w.cache.addActivePrompt ops reqId tokens) (Ends w (.addActivePrompt reqId tokens)) := by
  simp only [SuffixDecodingCache.addActivePrompt]
  cases hactive : w.cache.localTrees reqId with
  | none => exact h.threw _
  | some localTree =>
      have haccepts : ¬ Rejects w.cache.maxTreeDepth tokens := by
        apply fits.resolve_left
        simp [SuffixDecodingCache.hasActiveRequest, hactive]
      refine (h.extendLocal hactive haccepts).bind fun r hr => ?_
      obtain ⟨returned, tree⟩ := r
      obtain ⟨rfl, htree⟩ := hr
      refine ⟨nofun, ⟨?_, h.bounded⟩⟩
      exact { h.inStep with locals := h.inStep.update_locals htree reqId }

theorem Good.addActiveResponse (fits : Fits w (.addActiveResponse reqId tokens)) :
    Yields (w.cache.addActiveResponse ops reqId tokens)
      (Ends w (.addActiveResponse reqId tokens)) := by
  simp only [SuffixDecodingCache.addActiveResponse]
  cases hactive : w.cache.localTrees reqId with
  | none => exact h.threw _
  | some localTree =>
      obtain ⟨haccepts, huncached⟩ := fits.resolve_left
        (by simp [SuffixDecodingCache.hasActiveRequest, hactive])
      have hresponse : ∀ r, responseOf ((.addActiveResponse reqId tokens, .done) :: w.calls) r =
          if r = reqId then responseOf w.calls r ++ tokens else responseOf w.calls r :=
        fun _ => rfl
      refine (h.extendLocal hactive haccepts).bind fun r hr => ?_
      obtain ⟨returned, tree⟩ := r
      obtain ⟨rfl, htree⟩ := hr
      have hlocals : InStep { w.cache with
          localTrees := update w.cache.localTrees reqId (some tree) }
          (responseOf w.calls) (startedAt w.calls) :=
        { h.inStep with locals := h.inStep.update_locals htree reqId }
      have hsame : SuffixDecodingCache.seqIdOf { w.cache with
          localTrees := update w.cache.localTrees reqId (some tree) } reqId =
          w.cache.seqIdOf reqId := rfl
      rw [hsame]
      cases hid : w.cache.seqIdOf reqId with
      | none =>
          refine ⟨nofun, ⟨hlocals.congr fun r hr => ⟨?_, rfl⟩, h.bounded⟩⟩
          rw [hresponse, if_neg]
          intro heq
          subst heq
          obtain ⟨id, hmem⟩ := (hlocals.mem_order r).mp hr
          rw [← hlocals.seqIdOf_eq_some, hsame, hid] at hmem
          cases hmem
      | some seqId =>
          have hmem := h.inStep.seqIdOf_eq_some.mp hid
          have hreserved : ∀ token ∈ tokens, ¬ Reserved token := by
            apply huncached.resolve_left
            simp [SuffixDecodingCache.hasCachedRequest, hid]
          obtain ⟨g, hglobal, hids, hstored⟩ := h.inStep.stored
          have hfits := h.inStep.global_fits hglobal hids hmem
          refine (extend_spec hglobal hfits tokens).bind fun extended hextended => ?_
          obtain ⟨returned, globalTree⟩ := extended
          have hreturned : returned = true := hextended.1.mpr haccepts
          obtain ⟨g', hglobal', happended⟩ := hextended.2 hreturned
          subst hreturned
          refine ⟨nofun, ⟨{ hlocals with
            stored := ⟨g', hglobal', fun id hne => ?_, ?_⟩, clean := ?_ }, h.bounded⟩⟩
          · by_cases heq : id = seqId
            · exact ⟨reqId, heq ▸ hmem⟩
            · rw [happended.others id heq] at hne
              exact hids id hne
          · intro r id hr
            refine Eq.trans ?_ (hresponse r).symm
            by_cases heq : r = reqId
            · subst heq
              have hsameId := h.inStep.seqIdOf_eq_some.mpr hr
              rw [hid] at hsameId
              cases hsameId
              rw [if_pos rfl, happended.here, hstored r seqId hmem]
            · have hne : id ≠ seqId := by
                intro hids
                subst hids
                exact heq (h.inStep.unique hr hmem)
              rw [if_neg heq, happended.others id hne]
              exact hstored r id hr
          · intro r hr token htoken
            have htoken : token ∈
                responseOf ((.addActiveResponse reqId tokens, .done) :: w.calls) r := htoken
            rw [hresponse r] at htoken
            split at htoken
            · cases List.mem_append.mp htoken with
              | inl hold => exact h.inStep.clean r hr token hold
              | inr hnew => exact hreserved token hnew
            · exact h.inStep.clean r hr token htoken

theorem Good.stopRequest (reqId : String) :
    Ends w (.stopRequest reqId) (w.cache.stopRequest reqId) := by
  simp only [SuffixDecodingCache.stopRequest]
  split
  · refine ⟨nofun, ⟨?_, h.bounded⟩⟩
    exact { h.inStep with locals := h.inStep.update_locals (fun t ht => by cases ht) reqId }
  · exact h.threw _

theorem Good.evictCachedResponse (reqId : String) :
    Yields (w.cache.evictCachedResponse ops reqId >>= fun r =>
        .ok (if r.1 then Outcome.done else .threw, r.2))
      (Ends w (.evictCachedResponse reqId)) := by
  refine (h.inStep.evictCachedResponse reqId).bind fun r hr => ?_
  obtain ⟨returned, c⟩ := r
  cases hr with
  | inl hthrew =>
      obtain ⟨rfl, rfl, -⟩ := hthrew
      exact h.threw _
  | inr hevicted =>
      obtain ⟨rfl, hstep, hrest, -, hlength, -⟩ := hevicted
      refine ⟨nofun, ⟨hstep, fun hge => ?_⟩⟩
      have hmax := hrest.maxCachedRequests
      dsimp only at hge hlength hmax ⊢
      rw [hmax] at hge ⊢
      have hbound := h.bounded hge
      omega

theorem Good.speculate (reqId : String) (query : Query) :
    Ends w (.speculate reqId query) (w.cache.speculate ops reqId query, w.cache) := by
  refine ⟨fun _ => rfl, ⟨?_, h.bounded⟩⟩
  apply h.inStep.congr
  intro r _
  simp only [responseOf, startedAt, ite_self, and_self]

theorem Good.recycles {tree : SuffixTree N} (hreq : w.cache.seqIdOf reqId = none)
    (hrecycles : Recycles w.cache) :
    Recycles { w.cache with
      localTrees := update w.cache.localTrees reqId (some tree) } := by
  obtain ⟨j, r, hbefore, hfind, hinactive⟩ := hrecycles
  refine ⟨j, r, fun i hi => ?_, hfind, ?_⟩
  · obtain ⟨r', hr', hactive⟩ := hbefore i hi
    refine ⟨r', hr', ?_⟩
    simp only [SuffixDecodingCache.hasActiveRequest]
    by_cases heq : r' = reqId
    · rw [heq, update_self]
      rfl
    · rw [update_of_ne heq]
      exact hactive
  · have hne : r ≠ reqId := by
      intro heq
      have hmem := (h.inStep.find_eq_some _ r).mp hfind
      rw [← h.inStep.seqIdOf_eq_some, heq, hreq] at hmem
      cases hmem
    simp only [SuffixDecodingCache.hasActiveRequest, update_of_ne hne]
    exact hinactive

omit h in
theorem newest (tokens : List Int32) {c : SuffixDecodingCache N} {calls : List (Op × Outcome)}
    (hstep : InStep c (responseOf calls) (startedAt calls)) (hreq : c.seqIdOf reqId = none) :
    ∀ r ∈ c.cacheOrder,
      (responseOf ((.startRequest reqId tokens, .done) :: calls) r = responseOf calls r ∧
        startedAt ((.startRequest reqId tokens, .done) :: calls) r = startedAt calls r) ∧
      startedAt ((.startRequest reqId tokens, .done) :: calls) r <
        startedAt ((.startRequest reqId tokens, .done) :: calls) reqId := by
  intro r hr
  have hne : r ≠ reqId := by
    intro heq
    subst heq
    obtain ⟨id, hmem⟩ := (hstep.mem_order r).mp hr
    rw [← hstep.seqIdOf_eq_some, hreq] at hmem
    cases hmem
  have hle := startedAt_le calls r
  simp only [responseOf, startedAt, SuffixDecodingCache.Outcome.returned, if_true, if_neg hne]
  exact ⟨⟨trivial, trivial⟩, by omega⟩

omit h in
theorem cacheRequest (tokens : List Int32) {c : SuffixDecodingCache N} {calls : List (Op × Outcome)}
    (hstep : InStep c (responseOf calls) (startedAt calls)) (hbounded : Bounded c)
    (hroom : c.maxCachedRequests = 0 ∨ c.hasCachedRequest reqId = true ∨
      c.reqToSeqId.length < 1610612736 ∨ Recycles c) :
    Yields (c.cacheRequest ops reqId) (fun r => r.1 = true ∧
      Good { cache := r.2, calls := (.startRequest reqId tokens, .done) :: calls }) := by
  simp only [SuffixDecodingCache.cacheRequest]
  split
  · rename_i hmax
    have hnil : c.reqToSeqId = [] := by
      have hle := hbounded (by rw [hmax])
      exact eq_nil_of_length_eq_zero (by omega)
    refine ⟨rfl, hstep.congr fun r hr => ?_, hbounded⟩
    rw [hstep.order, hnil] at hr
    cases hr
  · rename_i hmax
    have hroom := hroom.resolve_left hmax
    have hfirst : Yields (c.evictOwn ops reqId) (fun r => r.1 = true ∧
        InStep r.2 (responseOf calls) (startedAt calls) ∧ r.2.seqIdOf reqId = none ∧
          r.2.maxCachedRequests ≠ 0 ∧
            (r.2.reqToSeqId.length < 1610612736 ∨ Recycles r.2)) := by
      simp only [SuffixDecodingCache.evictOwn]
      split
      · rename_i hcached
        refine (hstep.evictCachedResponse reqId).mono_post fun r hr => ?_
        cases hr with
        | inl hthrew =>
            rw [SuffixDecodingCache.hasCachedRequest, hthrew.2.2] at hcached
            cases hcached
        | inr hevicted =>
            obtain ⟨hreturned, hstep', hrest, hnone, hlength, -⟩ := hevicted
            have hlimit := hstep.length_le
            refine ⟨hreturned, hstep', hnone, ?_, .inl (by omega)⟩
            rw [hrest.maxCachedRequests]
            exact hmax
      · rename_i hcached
        refine ⟨rfl, hstep, ?_, hmax, hroom.resolve_left hcached⟩
        simpa [SuffixDecodingCache.hasCachedRequest] using hcached
    refine Ensures.andThen hfirst fun c' hc' => ?_
    obtain ⟨hstep', hnone, hmax', hfits⟩ := hc'
    have hghosts := newest tokens hstep' hnone
    have hempty : responseOf ((.startRequest reqId tokens, .done) :: calls) reqId = [] := by
      simp [responseOf, SuffixDecodingCache.Outcome.returned]
    refine (hstep'.generateSeqId hnone hmax' hfits hempty (fun r hr => (hghosts r hr).1)
      fun r hr => (hghosts r hr).2).mono_post fun r hr => ?_
    exact ⟨hr.1, hr.2.1, hr.2.2⟩

theorem Good.startRequest (fits : Fits w (.startRequest reqId tokens)) :
    Yields (w.cache.startRequest ops reqId tokens) (Ends w (.startRequest reqId tokens)) := by
  simp only [SuffixDecodingCache.startRequest]
  split
  · exact h.threw _
  · rename_i hinactive
    have hempty : Refines ({} : Int32Map (List Int32)) fun _ => none := .inl ⟨rfl, rfl⟩
    have hnew : Refines ({ nodes := ops.root } : SuffixTree N).seqs fun _ => none := hempty
    have hfits : ({ nodes := ops.root } : SuffixTree N).seqs.size < 1610612736 :=
      (by decide : 0 < 1610612736)
    refine Ensures.bind (extend_spec hnew (fun _ => hfits) tokens) fun r hr => ?_
    obtain ⟨returned, tree⟩ := r
    split
    · rename_i hreturned
      obtain ⟨l, hrefines, happended⟩ := hr.2 hreturned
      have htree : ∀ t, some tree = some t → ∃ l, Refines t.seqs l ∧ ∀ id, id ≠ 0 →
        l id = none := by
        intro t ht
        cases ht
        exact ⟨l, hrefines, happended.others⟩
      have hlocals : InStep { w.cache with
          localTrees := update w.cache.localTrees reqId (some tree) }
          (responseOf w.calls) (startedAt w.calls) :=
        { h.inStep with locals := h.inStep.update_locals htree reqId }
      have hbounded : Bounded { w.cache with
          localTrees := update w.cache.localTrees reqId (some tree) } := h.bounded
      have hroom : w.cache.maxCachedRequests = 0 ∨ w.cache.hasCachedRequest reqId = true ∨
          w.cache.reqToSeqId.length < 1610612736 ∨ Recycles { w.cache with
            localTrees := update w.cache.localTrees reqId (some tree) } := by
        cases hid : w.cache.seqIdOf reqId with
        | some id =>
            refine .inr (.inl ?_)
            rw [SuffixDecodingCache.hasCachedRequest, hid]
            rfl
        | none =>
            have hrecycles : Recycles w.cache → Recycles { w.cache with
                localTrees := update w.cache.localTrees reqId (some tree) } :=
              h.recycles hid
            have hfits := fits.resolve_left hinactive
            tauto
      refine (cacheRequest tokens hlocals hbounded hroom).bind fun r hr => ?_
      obtain ⟨returned, c⟩ := r
      obtain ⟨rfl, hc⟩ := hr
      exact ⟨nofun, hc⟩
    · exact h.threw _

theorem Good.call {op : Op} (fits : Fits w op) : Yields (w.cache.call ops op) (Ends w op) := by
  cases op with
  | startRequest reqId tokens => exact h.startRequest fits
  | addActivePrompt reqId tokens => exact h.addActivePrompt fits
  | addActiveResponse reqId tokens => exact h.addActiveResponse fits
  | stopRequest reqId => exact h.stopRequest reqId
  | evictCachedResponse reqId => exact h.evictCachedResponse reqId
  | speculate reqId query => exact h.speculate reqId query

theorem Good.step {op : Op} (fits : Fits w op) : Yields (w.step ops op) Good :=
  (h.call fits).bind fun _ hr => hr.2

end Calls

def noNodes : Nodes Unit where
  root := ()
  append := fun _ _ _ _ => ()
  interrupted := fun _ _ _ => ()
  remove := fun _ _ _ => ()
  interruptedRemove := fun _ _ _ => ()
  speculate := fun _ _ _ _ => some {}

def Op.tokens : Op → List Int32
  | .startRequest _ tokens | .addActivePrompt _ tokens | .addActiveResponse _ tokens => tokens
  | _ => []

/-- A call without reserved tokens on a small cache. -/
def Plain (w : World N) (op : Op) : Prop :=
  op.tokens.any (fun token => decide (Reserved token)) = false ∧
    w.cache.reqToSeqId.length < 1610612736

instance (w : World N) (op : Op) : Decidable (Plain w op) := inferInstanceAs (Decidable (_ ∧ _))

theorem Plain.fits {w : World N} {op : Op} (h : Plain w op) : Fits w op := by
  have hclean : ∀ token ∈ op.tokens, ¬ Reserved token := by simpa [Plain] using h.1
  have haccepts : ¬ Rejects w.cache.maxTreeDepth op.tokens := by
    rintro ⟨-, token, hmem, hreserved⟩
    exact hclean token hmem hreserved
  cases op with
  | startRequest reqId tokens => exact .inr (.inr (.inr (.inr (.inl h.2))))
  | addActivePrompt reqId tokens => exact .inr haccepts
  | addActiveResponse reqId tokens => exact .inr ⟨haccepts, .inr hclean⟩
  | stopRequest reqId => exact trivial
  | evictCachedResponse reqId => exact trivial
  | speculate reqId query => exact trivial

/-- Without a maximum a request that is not cached gets the next id, when the id is free. -/
theorem cacheRequest_free (ops : Nodes N) (c : SuffixDecodingCache N) {reqId : String}
    (hreq : ∀ id, (reqId, id) ∉ c.reqToSeqId) (hmax : c.maxCachedRequests < 0)
    (hfind : c.seqToReqId.find (Int32.ofNat c.nextSeqId) = .ok none) :
    c.cacheRequest ops reqId = (do
      let (_, seqToReqId) ← onMap (c.seqToReqId.emplace (Int32.ofNat c.nextSeqId) reqId)
      .ok (true, { c with
        reqToSeqId := c.reqToSeqId ++ [(reqId, Int32.ofNat c.nextSeqId)]
        seqToReqId
        nextSeqId := (c.nextSeqId + 1) % seqIdCount
        cacheOrder := c.cacheOrder ++ [reqId] })) := by
  have hremove : Lru.remove Prod.fst c.reqToSeqId reqId = c.reqToSeqId :=
    Lru.remove_eq_self fun e he heq => hreq e.2 (heq ▸ he)
  have huncached : c.hasCachedRequest reqId = false := by
    cases hid : c.hasCachedRequest reqId with
    | false => rfl
    | true =>
        rw [hasCachedRequest, seqIdOf, isSome_map, isSome_iff_exists] at hid
        obtain ⟨e, he⟩ := hid
        obtain ⟨hmem, hkey⟩ := Lru.mem_of_lookup he
        exact absurd (hkey ▸ hmem : (reqId, e.2) ∈ c.reqToSeqId) (hreq e.2)
  have hsearch : c.searchSeqId seqIdCount c.nextSeqId =
      .ok (c.nextSeqId, (c.nextSeqId + 1) % seqIdCount) := by
    rw [show seqIdCount = 2147483647 + 1 from rfl, searchSeqId, hfind]
    rfl
  have hrecycle : ∀ next, recycle ops { c with nextSeqId := next } (Int32.ofNat c.nextSeqId) =
      .ok (true, { c with nextSeqId := next }) := by
    intro next
    simp only [recycle, hfind]
    rfl
  rw [SuffixDecodingCache.cacheRequest, if_neg (Int.ne_of_lt hmax), evictOwn, huncached]
  simp only [Bool.false_eq_true, if_false, andThen, ok_bind, if_true, generateSeqId, hsearch,
    hrecycle, register, maybeEvictRequests, Int.le_of_lt hmax, hremove]

/-- Requests with the names `0`, `1`, ... are started. -/
def starts (n : Nat) : List Op := (List.range n).map fun i => .startRequest (toString i) []

/-- All requests that were started are active and cached, in a cache without a maximum. -/
structure Started (n : Nat) (w : World Unit) : Prop where
  good : Good w
  entries : w.cache.reqToSeqId = (List.range n).map fun i => (toString i, Int32.ofNat i)
  next : w.cache.nextSeqId = n
  unlimited : w.cache.maxCachedRequests = -1
  active : ∀ i, n ≤ i → w.cache.hasActiveRequest (toString i) = false

namespace Started

variable {n : Nat} {w : World Unit} (h : Started n w)

include h

theorem not_cached (id : Int32) : (toString n, id) ∉ w.cache.reqToSeqId := by
  rw [h.entries]
  intro hmem
  obtain ⟨i, hi, heq⟩ := List.mem_map.mp hmem
  have hin : i = n := Decimal.toString_inj (congrArg Prod.fst heq)
  rw [hin, mem_range] at hi
  exact Nat.lt_irrefl n hi

@[simp] theorem find_next (hn : n < seqIdCount) :
    w.cache.seqToReqId.find (Int32.ofNat n) = .ok none := by
  obtain ⟨f, hrefines, hf⟩ := h.good.inStep.holders
  rw [hrefines.find]
  cases hr : f (Int32.ofNat n) with
  | none => rfl
  | some r =>
      have hmem := (hf _ r).mp hr
      rw [h.entries] at hmem
      obtain ⟨i, hi, heq⟩ := List.mem_map.mp hmem
      have hi := List.mem_range.mp hi
      have hin := ofNat_injective (hi.trans hn) hn (congrArg Prod.snd heq)
      exact absurd hi (hin ▸ Nat.lt_irrefl n)

theorem startRequest_eq (hn : n < seqIdCount) :
    w.cache.startRequest noNodes (toString n) [] = (do
      let (_, seqToReqId) ← onMap (w.cache.seqToReqId.emplace (Int32.ofNat n) (toString n))
      .ok (.done, { w.cache with
        localTrees := update w.cache.localTrees (toString n) (some { nodes := noNodes.root })
        reqToSeqId := w.cache.reqToSeqId ++ [(toString n, Int32.ofNat n)]
        seqToReqId
        nextSeqId := (n + 1) % seqIdCount
        cacheOrder := w.cache.cacheOrder ++ [toString n] })) := by
  have hinactive := h.active n (Nat.le_refl n)
  have hcache := cacheRequest_free noNodes { w.cache with
    localTrees := update w.cache.localTrees (toString n) (some { nodes := noNodes.root }) }
    h.not_cached (by simp [h.unlimited]) (by rw [h.next]; exact h.find_next hn)
  simp only [h.next] at hcache
  simp only [SuffixDecodingCache.startRequest, hinactive,
    SuffixTree.extend, ok_bind, h.next]
  rw [hcache]
  cases onMap (w.cache.seqToReqId.emplace (Int32.ofNat n) (toString n)) <;> rfl

theorem step (hn : n < 1610612736) : Yields (w.step noNodes (.startRequest (toString n) []))
      (Started (n + 1)) := by
  have hlength : w.cache.reqToSeqId.length < 1610612736 := by simpa [h.entries] using hn
  have hlimit : n + 1 < seqIdCount := by
    have hcount : seqIdCount = 2147483648 := rfl
    omega
  have hgood : Yields (w.step noNodes (.startRequest (toString n) [])) Good :=
    h.good.step (.inr (.inr (.inr (.inr (.inl hlength)))))
  rw [World.step, SuffixDecodingCache.call, h.startRequest_eq (by omega)] at hgood ⊢
  cases hmap : onMap (w.cache.seqToReqId.emplace (Int32.ofNat n) (toString n)) with
  | error e =>
      rw [hmap] at hgood
      exact hgood.elim
  | ok r =>
      rw [hmap] at hgood
      refine ⟨hgood, ?_, Nat.mod_eq_of_lt hlimit, h.unlimited, fun i hi => ?_⟩
      · simp [range_succ, h.entries]
      · have hne : toString i ≠ toString n := fun heq => by
          have hin := Decimal.toString_inj heq
          omega
        exact (congrArg Option.isSome (update_of_ne hne _ _)).trans (h.active i (by omega))

end Started

end Xllm.SuffixCache
