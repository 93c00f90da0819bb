import Xllm.Util.Int32MapRuns
import Xllm.Util.SuffixDecodingCache
import Mathlib.Data.List.Perm.Subperm

/-!
# The containers of the suffix cache stay in step

`InStep` says what the containers have in common: the order and the two maps have the same
requests, and the global tree stores their responses. Two operations change the cached requests:
an entry is removed everywhere, or a new one is registered; everything else is composed of these.

The responses and the times at which requests were started are ghosts here. Only their values at
the cached requests matter.
-/

namespace Xllm.SuffixCache

open Contract Int32Maps List Function Option

variable {N : Type} {ops : Nodes N} {maxDepth : Int} {t : SuffixTree N} {seqId token : Int32}
  {tokens : List Int32} {g : Int32 → Option (List Int32)}

theorem Ensures.onMap {α : Type} {x : Except Int32Maps.Abort α} {Q : α → Prop}
    (h : Yields x Q) : Yields (onMap x) Q := by
  cases x with
  | ok a => exact h
  | error e => exact h.elim

theorem Ensures.andThen {σ : Type} {first : Except Stop (Bool × σ)}
    {rest : σ → Except Stop (Bool × σ)} {P Q : Bool × σ → Prop}
    (h : Yields first fun r => r.1 = true ∧ P r)
    (hrest : ∀ s, P (true, s) → Yields (rest s) Q) : Yields (andThen first rest) Q := by
  refine h.bind fun r hr => ?_
  obtain ⟨returned, s⟩ := r
  obtain ⟨rfl, hs⟩ := hr
  exact hrest s hs

/-- Tokens were appended to one sequence. -/
structure Appended (g : Int32 → Option (List Int32)) (seqId : Int32) (tokens : List Int32)
    (g' : Int32 → Option (List Int32)) : Prop where
  here : (g' seqId).getD [] = (g seqId).getD [] ++ tokens
  others : ∀ id, id ≠ seqId → g' id = g id

theorem Appended.nil : Appended g seqId [] g where
  here := (append_nil _).symm
  others := fun _ _ => rfl

theorem Appended.trans {g' g'' : Int32 → Option (List Int32)} {more : List Int32}
    (h : Appended g seqId tokens g') (h' : Appended g' seqId more g'') :
    Appended g seqId (tokens ++ more) g'' where
  here := by rw [h'.here, h.here, append_assoc]
  others := fun id hid => (h'.others id hid).trans (h.others id hid)

/-- A token makes `append` throw. -/
def Rejects (maxDepth : Int) (tokens : List Int32) : Prop :=
  maxDepth ≠ 0 ∧ ∃ token ∈ tokens, Reserved token

theorem rejects_cons :
    Rejects maxDepth (token :: tokens) ↔
      (maxDepth ≠ 0 ∧ Reserved token) ∨ Rejects maxDepth tokens := by
  simp only [Rejects, mem_cons, exists_eq_or_imp, and_or_left]

/-- One token appended to a sequence of the tree. -/
theorem append_spec (h : Refines t.seqs g) (fits : g seqId = none → t.seqs.size < 1610612736)
    (token : Int32) : Yields (t.append ops maxDepth seqId token) (fun r =>
      (r.1 = true ↔ ¬ (maxDepth ≠ 0 ∧ Reserved token)) ∧
        ∃ g', Refines r.2.seqs g' ∧ g' seqId ≠ none ∧ Appended g seqId [token] g') := by
  refine Ensures.bind (Ensures.onMap (h.emplace_spec [] fits)) fun r hr => ?_
  obtain ⟨-, hvalue, hassign⟩ := hr
  have happended : Appended g seqId [token]
      (update g seqId (some ((g seqId).getD [] ++ [token]))) := by
    refine ⟨?_, fun id hid => update_of_ne hid _ _⟩
    rw [update_self, getD_some]
  have hsome : update g seqId (some ((g seqId).getD [] ++ [token])) seqId ≠ none := by
    rw [update_self]
    exact some_ne_none _
  simp only [hvalue]
  split
  · rename_i hreserved
    exact ⟨iff_of_false nofun (not_not_intro hreserved), _, hassign _, hsome, happended⟩
  · rename_i hreserved
    exact ⟨iff_of_true rfl hreserved, _, hassign _, hsome, happended⟩

/-- Tokens appended one by one, unless one of them is rejected. -/
theorem extend_spec (h : Refines t.seqs g) (fits : g seqId = none → t.seqs.size < 1610612736)
    (tokens : List Int32) : Yields (t.extend ops maxDepth seqId tokens) (fun r =>
      (r.1 = true ↔ ¬ Rejects maxDepth tokens) ∧
        (r.1 = true → ∃ g', Refines r.2.seqs g' ∧ Appended g seqId tokens g')) := by
  induction tokens generalizing t g with
  | nil =>
      refine ⟨iff_of_true rfl ?_, fun _ => ⟨g, h, .nil⟩⟩
      intro hrejects
      obtain ⟨-, token, hmem, -⟩ := hrejects
      cases hmem
  | cons token tokens ih =>
      refine (append_spec h fits token).bind fun r hr => ?_
      obtain ⟨hreturned, g', hrefines, hsome, happended⟩ := hr
      rw [rejects_cons]
      dsimp only
      split
      · rename_i htrue
        have hok := hreturned.mp htrue
        refine (ih hrefines fun hnone => absurd hnone hsome).mono_post fun r' hr' => ?_
        refine ⟨by rw [hr'.1, or_iff_right hok], fun htrue' => ?_⟩
        obtain ⟨g'', hrefines', happended'⟩ := hr'.2 htrue'
        exact ⟨g'', hrefines', happended.trans happended'⟩
      · rename_i hfalse
        have hrejected := not_not.mp (mt hreturned.mpr hfalse)
        exact ⟨iff_of_false nofun (not_not_intro (.inl hrejected)), nofun⟩

/-- A sequence without reserved tokens is removed. -/
theorem remove_spec (h : Refines t.seqs g) (fits : g seqId = none → t.seqs.size < 1610612736)
    (hclean : ∀ token ∈ (g seqId).getD [], ¬ Reserved token) : Yields (t.remove ops seqId) (fun r =>
      r.1 = true ∧ Refines r.2.seqs (update g seqId none)) := by
  refine Ensures.bind (Ensures.onMap (h.emplace_spec [] fits)) fun r hr => ?_
  obtain ⟨hrefines, hvalue, -⟩ := hr
  have hreturns : ¬ ∃ token ∈ (g seqId).getD [], Reserved token := by
    rintro ⟨token, hmem, hreserved⟩
    exact hclean token hmem hreserved
  simp only [hvalue, getD_some, if_neg hreturns]
  refine Ensures.bind (Ensures.onMap (hrefines.erase seqId)) fun r' hr' => ?_
  have hrefines' := hr'.2
  rw [update_idem] at hrefines'
  exact ⟨rfl, hrefines'⟩

/-- The containers of the cache have the same requests, and the responses are in the global
tree. -/
structure InStep (c : SuffixDecodingCache N) (response : String → List Int32)
    (time : String → Nat) : Prop where
  order : c.cacheOrder = c.reqToSeqId.map Prod.fst
  keyed : Lru.Keyed Prod.fst c.reqToSeqId
  holders : ∃ f, Refines c.seqToReqId f ∧ ∀ id r, f id = some r ↔ (r, id) ∈ c.reqToSeqId
  stored : ∃ g, Refines c.globalTree.seqs g ∧
    (∀ id, g id ≠ none → ∃ r, (r, id) ∈ c.reqToSeqId) ∧
      ∀ r id, (r, id) ∈ c.reqToSeqId → (g id).getD [] = response r
  locals : ∀ r t, c.localTrees r = some t →
    ∃ l, Refines t.seqs l ∧ ∀ id, id ≠ 0 → l id = none
  next : c.nextSeqId < seqIdCount
  times : c.cacheOrder.Pairwise fun r r' => time r < time r'
  clean : ∀ r ∈ c.cacheOrder, ∀ token ∈ response r, ¬ Reserved token

/-- There are not more cached requests than the maximum, when it is not negative. -/
def Bounded (c : SuffixDecodingCache N) : Prop :=
  0 ≤ c.maxCachedRequests → (c.reqToSeqId.length : Int) ≤ c.maxCachedRequests

/-- The parts that removing and registering entries leave as they are. -/
structure SameRest (c c' : SuffixDecodingCache N) : Prop where
  maxTreeDepth : c'.maxTreeDepth = c.maxTreeDepth
  maxCachedRequests : c'.maxCachedRequests = c.maxCachedRequests
  localTrees : c'.localTrees = c.localTrees
  nextSeqId : c'.nextSeqId = c.nextSeqId

theorem SameRest.refl (c : SuffixDecodingCache N) : SameRest c c := ⟨rfl, rfl, rfl, rfl⟩

theorem SameRest.trans {c c' c'' : SuffixDecodingCache N} (h : SameRest c c')
    (h' : SameRest c' c'') : SameRest c c'' where
  maxTreeDepth := h'.maxTreeDepth.trans h.maxTreeDepth
  maxCachedRequests := h'.maxCachedRequests.trans h.maxCachedRequests
  localTrees := h'.localTrees.trans h.localTrees
  nextSeqId := h'.nextSeqId.trans h.nextSeqId

namespace InStep

variable {c : SuffixDecodingCache N} {response response' : String → List Int32}
  {time time' : String → Nat} {reqId : String}

section

variable (h : InStep c response time)

include h

theorem mem_order (reqId : String) : reqId ∈ c.cacheOrder ↔ ∃ id, (reqId, id) ∈ c.reqToSeqId := by
  simp [h.order]

theorem seqIdOf_eq_some : c.seqIdOf reqId = some seqId ↔ (reqId, seqId) ∈ c.reqToSeqId := by
  simp only [SuffixDecodingCache.seqIdOf, map_eq_some_iff, Lru.lookup_eq_some_iff h.keyed]
  constructor
  · intro hex
    obtain ⟨entry, ⟨hmem, rfl⟩, rfl⟩ := hex
    exact hmem
  · intro hmem
    exact ⟨(reqId, seqId), ⟨hmem, rfl⟩, rfl⟩

theorem unique {r r' : String} {id : Int32} (hr : (r, id) ∈ c.reqToSeqId)
    (hr' : (r', id) ∈ c.reqToSeqId) : r = r' := by
  obtain ⟨f, -, hf⟩ := h.holders
  rw [← hf] at hr hr'
  exact Option.some.inj (hr.symm.trans hr')

theorem ids_nodup : (c.reqToSeqId.map Prod.snd).Nodup := by
  apply List.Nodup.map_on _ h.keyed.nodup
  intro e he e' he' hid
  have hr : e.1 = e'.1 := by
    apply h.unique he
    rw [hid]
    exact he'
  exact Prod.ext hr hid

omit h in
theorem mem_ids {id : Int32} : id ∈ c.reqToSeqId.map Prod.snd ↔ ∃ r, (r, id) ∈ c.reqToSeqId := by
  simp

theorem size_eq : c.seqToReqId.size = c.reqToSeqId.length := by
  obtain ⟨f, hrefines, hf⟩ := h.holders
  have hsome : ∀ id, f id ≠ none ↔ id ∈ c.reqToSeqId.map Prod.snd := by
    intro id
    rw [mem_ids, ne_none_iff_exists']
    simp only [hf]
  rw [← length_map Prod.snd]
  apply le_antisymm
  · exact hrefines.size_le fun id hid => (hsome id).mp hid
  · exact hrefines.le_size h.ids_nodup fun id hid => (hsome id).mpr hid

theorem length_le : c.reqToSeqId.length ≤ 1610612736 := by
  obtain ⟨f, hrefines, -⟩ := h.holders
  rw [← h.size_eq]
  exact hrefines.size_le_limit

theorem global_fits (hrefines : Refines c.globalTree.seqs g)
    (hids : ∀ id, g id ≠ none → ∃ r, (r, id) ∈ c.reqToSeqId)
    (hmem : (reqId, seqId) ∈ c.reqToSeqId) (hnone : g seqId = none) :
    c.globalTree.seqs.size < 1610612736 := by
  have hin : seqId ∈ c.reqToSeqId.map Prod.snd := mem_ids.mpr ⟨reqId, hmem⟩
  have hothers : ∀ id, g id ≠ none → id ∈ (c.reqToSeqId.map Prod.snd).erase seqId := by
    intro id hid
    have hne : id ≠ seqId := by
      intro heq
      rw [heq] at hid
      exact hid hnone
    rw [mem_erase_of_ne hne, mem_ids]
    exact hids id hid
  have hle := hrefines.size_le hothers
  have hpos := length_pos_of_mem hin
  have hlimit := h.length_le
  rw [length_erase_of_mem hin] at hle
  rw [length_map] at hle hpos
  omega

theorem congr (hsame : ∀ r ∈ c.cacheOrder, response' r = response r ∧ time' r = time r) :
    InStep c response' time' := by
  refine { h with stored := ?_, times := ?_, clean := ?_ }
  · obtain ⟨g, hrefines, hids, hresponse⟩ := h.stored
    refine ⟨g, hrefines, hids, fun r id hmem => ?_⟩
    rw [(hsame r ((h.mem_order r).mpr ⟨id, hmem⟩)).1]
    exact hresponse r id hmem
  · apply h.times.imp_of_mem
    intro r r' hr hr' hlt
    rw [(hsame r hr).2, (hsame r' hr').2]
    exact hlt
  · intro r hr
    rw [(hsame r hr).1]
    exact h.clean r hr

theorem update_locals {tree : Option (SuffixTree N)}
    (htree : ∀ t, tree = some t → ∃ l, Refines t.seqs l ∧ ∀ id, id ≠ 0 → l id = none) (r : String) :
    ∀ r' t, update c.localTrees r tree r' = some t →
      ∃ l, Refines t.seqs l ∧ ∀ id, id ≠ 0 → l id = none := by
  intro r' t ht
  by_cases hr : r' = r
  · subst hr
    rw [update_self] at ht
    exact htree t ht
  · rw [update_of_ne hr] at ht
    exact h.locals r' t ht

end

section

variable (h : InStep c response time)

include h

theorem removeEntry (hmem : (reqId, seqId) ∈ c.reqToSeqId) :
    Yields (c.removeEntry ops reqId seqId) (fun r => r.1 = true ∧
      InStep r.2 response time ∧ r.2.reqToSeqId = Lru.remove Prod.fst c.reqToSeqId reqId ∧
        SameRest c r.2) := by
  obtain ⟨f, hrefines, hf⟩ := h.holders
  obtain ⟨g, hglobal, hids, hresponse⟩ := h.stored
  have hfits := h.global_fits hglobal hids hmem
  refine Ensures.bind (Ensures.onMap (hrefines.erase seqId)) fun erased herased => ?_
  have hclean : ∀ token ∈ (g seqId).getD [], ¬ Reserved token := by
    rw [hresponse reqId seqId hmem]
    exact h.clean reqId ((h.mem_order reqId).mpr ⟨seqId, hmem⟩)
  refine Ensures.bind (remove_spec hglobal hfits hclean) fun r htree => ?_
  obtain ⟨returned, tree⟩ := r
  obtain ⟨rfl, htree⟩ := htree
  have hother : ∀ {r id}, (r, id) ∈ c.reqToSeqId → (id ≠ seqId ↔ r ≠ reqId) := by
    intro r id hr
    refine not_congr ⟨?_, ?_⟩
    · intro hid
      rw [hid] at hr
      exact h.unique hr hmem
    · intro hreq
      exact congrArg Prod.snd (h.keyed.eq_of_key_eq hr hmem hreq)
  have hrest : ∀ r id, (r, id) ∈ Lru.remove Prod.fst c.reqToSeqId reqId ↔
      (r, id) ∈ c.reqToSeqId ∧ r ≠ reqId := by
    intro r id
    exact Lru.mem_remove
  simp only [ensures_ok, if_true]
  refine ⟨trivial, ⟨?_, ?_, ⟨_, herased.2, ?_⟩, ⟨_, htree, ?_, ?_⟩, h.locals, h.next, ?_,
    ?_⟩, trivial,
    ⟨rfl, rfl, rfl, rfl⟩⟩
  · dsimp only
    rw [h.order, List.Nodup.erase_eq_filter h.keyed, List.filter_map]
    congr 1
    apply filter_congr
    intro e _
    by_cases hreq : e.1 = reqId
    · simp [hreq]
    · simp [hreq]
  · exact h.keyed.sublist filter_sublist
  · intro id r
    rw [hrest]
    by_cases hid : id = seqId
    · subst hid
      rw [update_self]
      refine iff_of_false (by simp) fun hr => ?_
      exact (hother hr.1).mpr hr.2 rfl
    · rw [update_of_ne hid, hf]
      exact ⟨fun hr => ⟨hr, (hother hr).mp hid⟩, And.left⟩
  · intro id hid
    by_cases heq : id = seqId
    · rw [heq, update_self] at hid
      exact absurd rfl hid
    · rw [update_of_ne heq] at hid
      obtain ⟨r, hr⟩ := hids id hid
      exact ⟨r, (hrest r id).mpr ⟨hr, (hother hr).mp heq⟩⟩
  · intro r id hr
    rw [hrest] at hr
    rw [update_of_ne ((hother hr.1).mpr hr.2)]
    exact hresponse r id hr.1
  · exact h.times.sublist erase_sublist
  · exact fun r hr => h.clean r (mem_of_mem_erase hr)

theorem length_remove (hmem : (reqId, seqId) ∈ c.reqToSeqId) :
    (Lru.remove Prod.fst c.reqToSeqId reqId).length + 1 = c.reqToSeqId.length := by
  have hperm := Lru.cons_remove_perm h.keyed hmem
  exact hperm.length_eq

theorem evictCachedResponse (reqId : String) : Yields (c.evictCachedResponse ops reqId) (fun r =>
      (r.1 = false ∧ r.2 = c ∧ c.seqIdOf reqId = none) ∨
        (r.1 = true ∧ InStep r.2 response time ∧ SameRest c r.2 ∧ r.2.seqIdOf reqId = none ∧
          r.2.reqToSeqId.length + 1 = c.reqToSeqId.length ∧
            r.2.cacheOrder.Sublist c.cacheOrder)) := by
  simp only [SuffixDecodingCache.evictCachedResponse]
  cases hid : c.seqIdOf reqId with
  | none => exact .inl ⟨rfl, rfl, rfl⟩
  | some seqId =>
      have hmem := h.seqIdOf_eq_some.mp hid
      refine (h.removeEntry hmem).mono_post fun r hr => ?_
      obtain ⟨hreturned, h', hreq, hrest⟩ := hr
      refine .inr ⟨hreturned, h', hrest, ?_, ?_, ?_⟩
      · cases hnone : r.2.seqIdOf reqId with
        | none => rfl
        | some id =>
            have hin := h'.seqIdOf_eq_some.mp hnone
            rw [hreq, Lru.mem_remove] at hin
            exact absurd rfl hin.2
      · rw [hreq]
        exact h.length_remove hmem
      · rw [h'.order, h.order, hreq]
        exact List.filter_sublist.map Prod.fst

theorem evictLoop {newSeqId : Int32} {rounds : Nat} (hrounds : c.reqToSeqId.length ≤ rounds)
    (hmax : 0 < c.maxCachedRequests) :
    Yields (c.evictLoop ops newSeqId rounds) (fun r => r.1 = true ∧
      InStep r.2 response time ∧ SameRest c r.2 ∧
        (r.2.reqToSeqId.length : Int) ≤ c.maxCachedRequests) := by
  induction rounds generalizing c with
  | zero => exact ⟨rfl, h, .refl c, by show (c.reqToSeqId.length : Int) ≤ _; omega⟩
  | succ rounds ih =>
      simp only [SuffixDecodingCache.evictLoop]
      split
      · split
        · rename_i hlarge hnone
          -- every request has the new id, so there is at most one
          exfalso
          have hall : c.reqToSeqId.map Prod.snd ⊆ [newSeqId] := by
            intro id hid
            obtain ⟨r, hr⟩ := mem_ids.mp hid
            have horder := (h.mem_order r).mpr ⟨id, hr⟩
            have hpred := List.find?_eq_none.mp hnone r horder
            rw [h.seqIdOf_eq_some.mpr hr] at hpred
            simpa using hpred
          have hle := (h.ids_nodup.subperm hall).length_le
          simp only [length_map, length_singleton] at hle
          omega
        · rename_i reqId hfound
          have hcached : c.seqIdOf reqId ≠ none := by
            intro hnone
            have hpred := find?_some hfound
            rw [hnone] at hpred
            cases hpred
          refine Ensures.andThen ((h.evictCachedResponse reqId).mono_post fun r hr =>
            hr.resolve_left fun hthrew => hcached hthrew.2.2) fun c' hc' => ?_
          obtain ⟨h', hrest, -, hlength, -⟩ := hc'
          have hmax' := hrest.maxCachedRequests
          refine (ih h' (by omega) (by omega)).mono_post fun r hr => ?_
          rw [hmax'] at hr
          exact ⟨hr.1, hr.2.1, hrest.trans hr.2.2.1, hr.2.2.2⟩
      · exact ⟨rfl, h, .refl c, by show (c.reqToSeqId.length : Int) ≤ _; omega⟩

end

end InStep

/-- An active request has the id. -/
def Busy (c : SuffixDecodingCache N) (seqId : Nat) : Prop :=
  ∃ r, c.seqToReqId.find (Int32.ofNat seqId) = .ok (some r) ∧ c.hasActiveRequest r = true

/-- The first id from the next one on that is not busy belongs to an inactive request. -/
def Recycles (c : SuffixDecodingCache N) : Prop :=
  ∃ j r, (∀ i < j, Busy c ((c.nextSeqId + i) % seqIdCount)) ∧
    c.seqToReqId.find (Int32.ofNat ((c.nextSeqId + j) % seqIdCount)) = .ok (some r) ∧
      c.hasActiveRequest r = false

theorem ofNat_injective {i j : Nat} (hi : i < seqIdCount) (hj : j < seqIdCount)
    (heq : Int32.ofNat i = Int32.ofNat j) : i = j := by
  have hints := congrArg Int32.toInt heq
  rw [Int32.toInt_ofNat_of_lt hi, Int32.toInt_ofNat_of_lt hj] at hints
  exact Int.ofNat.inj hints

namespace InStep

variable {c : SuffixDecodingCache N} {response response' : String → List Int32}
  {time time' : String → Nat} {reqId : String} (h : InStep c response time)

include h

theorem find_eq_some (id : Int32) (r : String) :
    c.seqToReqId.find id = .ok (some r) ↔ (r, id) ∈ c.reqToSeqId := by
  obtain ⟨f, hrefines, hf⟩ := h.holders
  rw [hrefines.find, Except.ok.injEq, hf]

theorem find_spec (id : Int32) : Yields (onMap (c.seqToReqId.find id)) (fun holder =>
      c.seqToReqId.find id = .ok holder) := by
  obtain ⟨f, hrefines, -⟩ := h.holders
  rw [hrefines.find]
  rfl

theorem exists_free (start : Nat) : ¬ ∀ j < seqIdCount, Busy c ((start + j) % seqIdCount) := by
  intro hbusy
  have hpos : 0 < seqIdCount := by decide
  have hall : ∀ i < seqIdCount, Busy c i := by
    intro i hi
    have hround : (start + (i + (seqIdCount - start % seqIdCount)) % seqIdCount) % seqIdCount =
        i := by
      have hlt := Nat.mod_lt start hpos
      rw [Nat.add_mod_mod, ← Nat.mod_add_mod, ← Nat.mod_eq_of_lt hi]
      have hsum : start % seqIdCount + (i % seqIdCount + (seqIdCount - start % seqIdCount)) =
          i % seqIdCount + seqIdCount := by omega
      rw [hsum, Nat.add_mod_right, Nat.mod_mod]
    rw [← hround]
    exact hbusy _ (Nat.mod_lt _ hpos)
  have hkeys : ((range seqIdCount).map Int32.ofNat).length ≤ c.reqToSeqId.length := by
    have hsub : (range seqIdCount).map Int32.ofNat ⊆ c.reqToSeqId.map Prod.snd := by
      intro id hid
      obtain ⟨i, hi, rfl⟩ := List.mem_map.mp hid
      obtain ⟨r, hfind, -⟩ := hall i (List.mem_range.mp hi)
      exact mem_ids.mpr ⟨r, (h.find_eq_some _ r).mp hfind⟩
    have hnodup : ((range seqIdCount).map Int32.ofNat).Nodup := by
      apply List.Nodup.map_on _ nodup_range
      intro i hi j hj heq
      exact ofNat_injective (List.mem_range.mp hi) (List.mem_range.mp hj) heq
    have hle := (hnodup.subperm hsub).length_le
    rwa [length_map Prod.snd] at hle
  have hlimit := h.length_le
  rw [length_map, length_range] at hkeys
  have hcount : 1610612736 < seqIdCount := by decide
  omega

/-- The search goes from its start to the first id that is not busy. -/
theorem searchSeqId_spec (rounds : Nat) {start : Nat} (hstart : start < seqIdCount) :
    Ensures (c.searchSeqId rounds start)
      (fun _ => ∀ j < rounds, Busy c ((start + j) % seqIdCount)) (fun p =>
        ∃ j, p.1 = (start + j) % seqIdCount ∧ (∀ i < j, Busy c ((start + i) % seqIdCount)) ∧
          ¬ Busy c p.1 ∧ p.2 < seqIdCount) := by
  have hpos : 0 < seqIdCount := by decide
  induction rounds generalizing start with
  | zero => exact fun j hj => absurd hj (Nat.not_lt_zero j)
  | succ rounds ih =>
      have hhere : (start + 0) % seqIdCount = start := Nat.mod_eq_of_lt hstart
      have hfree : ¬ Busy c start → ∃ j, start = (start + j) % seqIdCount ∧
          (∀ i < j, Busy c ((start + i) % seqIdCount)) ∧ ¬ Busy c start ∧
            (start + 1) % seqIdCount < seqIdCount := by
        intro hnot
        exact ⟨0, hhere.symm, fun i hi => absurd hi (Nat.not_lt_zero i), hnot, Nat.mod_lt _ hpos⟩
      refine Ensures.bind (h.find_spec (Int32.ofNat start)).total fun holder hholder => ?_
      cases holder with
      | none =>
          apply hfree
          intro hbusy
          obtain ⟨r, hr, -⟩ := hbusy
          rw [hholder] at hr
          cases hr
      | some r =>
          dsimp only
          split
          · rename_i hactive
            have hbusy : Busy c start := ⟨r, hholder, hactive⟩
            have hshift : ∀ j, ((start + 1) % seqIdCount + j) % seqIdCount =
                (start + (j + 1)) % seqIdCount := by
              intro j
              rw [Nat.mod_add_mod, Nat.add_assoc, Nat.add_comm 1 j]
            refine (ih (Nat.mod_lt _ hpos)).mono (fun _ hall => ?_) fun p hp => ?_
            · intro j hj
              cases j with
              | zero => rw [hhere]; exact hbusy
              | succ j =>
                  rw [← hshift]
                  exact hall j (Nat.lt_of_succ_lt_succ hj)
            · obtain ⟨j, heq, hbefore, hnot, hnext⟩ := hp
              refine ⟨j + 1, by rw [heq, hshift], fun i hi => ?_, hnot, hnext⟩
              cases i with
              | zero => rw [hhere]; exact hbusy
              | succ i =>
                  rw [← hshift]
                  exact hbefore i (Nat.lt_of_succ_lt_succ hi)
          · rename_i hinactive
            apply hfree
            intro hbusy
            obtain ⟨r', hr', hactive⟩ := hbusy
            rw [hholder] at hr'
            cases hr'
            exact hinactive hactive

theorem searchSeqId : Yields (c.searchSeqId seqIdCount c.nextSeqId) (fun p =>
    ∃ j, p.1 = (c.nextSeqId + j) % seqIdCount ∧
      (∀ i < j, Busy c ((c.nextSeqId + i) % seqIdCount)) ∧ ¬ Busy c p.1 ∧ p.2 < seqIdCount) :=
  (h.searchSeqId_spec seqIdCount h.next).mono (fun _ => h.exists_free c.nextSeqId) fun _ hp => hp

theorem recycle (id : Int32) : Yields (c.recycle ops id) (fun r => r.1 = true ∧
      InStep r.2 response time ∧ SameRest c r.2 ∧ (∀ old, (old, id) ∉ r.2.reqToSeqId) ∧
        r.2.reqToSeqId.Sublist c.reqToSeqId ∧
          ∀ old, (old, id) ∈ c.reqToSeqId → r.2.reqToSeqId.length + 1 = c.reqToSeqId.length) := by
  refine Ensures.bind (h.find_spec id) fun holder hholder => ?_
  cases holder with
  | none =>
      have hnone : ∀ r, (r, id) ∉ c.reqToSeqId := by
        intro r hr
        rw [← h.find_eq_some, hholder] at hr
        cases hr
      exact ⟨rfl, h, .refl c, hnone, List.Sublist.refl _, fun r hr => absurd hr (hnone r)⟩
  | some old =>
      have hmem := (h.find_eq_some id old).mp hholder
      refine (h.removeEntry hmem).mono_post fun r hr => ?_
      obtain ⟨hreturned, h', hreq, hrest⟩ := hr
      refine ⟨hreturned, h', hrest, fun other hother => ?_, ?_, fun _ _ => ?_⟩
      · rw [hreq, Lru.mem_remove] at hother
        exact hother.2 (h.unique hother.1 hmem)
      · rw [hreq]
        exact filter_sublist
      · rw [hreq]
        exact h.length_remove hmem

/-- A request that is not cached gets an id that no other request has. Its response is empty, and
it is the last one in the order. -/
theorem register {id : Int32} (hnew : ∀ r, (r, id) ∉ c.reqToSeqId)
    (hreq : c.seqIdOf reqId = none) (hmax : c.maxCachedRequests ≠ 0)
    (fits : c.reqToSeqId.length < 1610612736) (hempty : response' reqId = [])
    (hsame : ∀ r ∈ c.cacheOrder, response' r = response r ∧ time' r = time r)
    (hlast : ∀ r ∈ c.cacheOrder, time' r < time' reqId) :
    Yields (c.register ops reqId id) (fun r => r.1 = true ∧
      InStep r.2 response' time' ∧ SameRest c r.2 ∧ Bounded r.2) := by
  have h' := h.congr hsame
  obtain ⟨f, hrefines, hf⟩ := h'.holders
  obtain ⟨g, hglobal, hids, hresponse⟩ := h'.stored
  have habsent : ∀ id', (reqId, id') ∉ c.reqToSeqId := by
    intro id' hmem
    rw [← h.seqIdOf_eq_some, hreq] at hmem
    cases hmem
  have hfree : f id = none := by
    cases hid : f id with
    | none => rfl
    | some r => exact absurd ((hf id r).mp hid) (hnew r)
  have hremove : Lru.remove Prod.fst c.reqToSeqId reqId = c.reqToSeqId := by
    apply Lru.remove_eq_self
    intro e he heq
    exact habsent e.2 (heq ▸ he)
  have hfits : f id = none → c.seqToReqId.size < 1610612736 := by
    intro _
    rw [h.size_eq]
    exact fits
  refine Ensures.bind (Ensures.onMap (hrefines.emplace_spec reqId hfits)) fun r hr => ?_
  have hmap := hr.1
  rw [hfree] at hmap
  have hstep : InStep { c with
      reqToSeqId := Lru.remove Prod.fst c.reqToSeqId reqId ++ [(reqId, id)]
      seqToReqId := r.2
      cacheOrder := c.cacheOrder ++ [reqId] } response' time' := by
    rw [hremove]
    refine ⟨?_, ?_, ⟨_, hmap, ?_⟩, ⟨g, hglobal, ?_, ?_⟩, h.locals, h.next, ?_, ?_⟩
    · simp [h.order]
    · simp only [Lru.Keyed, map_append]
      apply h.keyed.append (nodup_singleton reqId)
      apply List.disjoint_singleton.mpr
      intro hmem
      obtain ⟨e, he, heq⟩ := List.mem_map.mp hmem
      exact habsent e.2 (heq ▸ he)
    · intro id' r'
      simp only [mem_append, mem_singleton, Prod.mk.injEq]
      by_cases hid : id' = id
      · subst hid
        rw [update_self, Option.some.injEq]
        constructor
        · intro heq
          exact .inr ⟨heq.symm, rfl⟩
        · intro hcases
          exact (hcases.resolve_left (hnew r')).1.symm
      · rw [update_of_ne hid, hf]
        constructor
        · exact .inl
        · intro hcases
          exact hcases.resolve_right fun hpair => hid hpair.2
    · intro id' hid'
      obtain ⟨r', hr'⟩ := hids id' hid'
      exact ⟨r', mem_append_left _ hr'⟩
    · intro r' id' hmem
      simp only [mem_append, mem_singleton, Prod.mk.injEq] at hmem
      cases hmem with
      | inl hold => exact hresponse r' id' hold
      | inr hpair =>
          obtain ⟨rfl, rfl⟩ := hpair
          rw [hempty]
          cases hg : g id' with
          | none => rfl
          | some s =>
              obtain ⟨r'', hr''⟩ := hids id' (by rw [hg]; exact some_ne_none s)
              exact absurd hr'' (hnew r'')
    · simp only [pairwise_append, pairwise_singleton, mem_singleton, forall_eq,
        true_and]
      exact ⟨h'.times, hlast⟩
    · intro r hr
      cases List.mem_append.mp hr with
      | inl hold => exact h'.clean r hold
      | inr hlast =>
          rw [List.mem_singleton.mp hlast, hempty]
          exact forall_mem_nil _
  simp only [SuffixDecodingCache.maybeEvictRequests]
  split
  · rename_i hle
    exact ⟨rfl, hstep, ⟨rfl, rfl, rfl, rfl⟩, fun hge => absurd (le_antisymm hle hge) hmax⟩
  · rename_i hpos
    refine (hstep.evictLoop (Nat.le_refl _) (Int.not_le.mp hpos)).mono_post fun r hr => ?_
    obtain ⟨hreturned, hstep', hrest, hbound⟩ := hr
    refine ⟨hreturned, hstep', ⟨hrest.1, hrest.2, hrest.3, hrest.4⟩, fun _ => ?_⟩
    rw [hrest.maxCachedRequests]
    exact hbound

theorem recycle_fits {j : Nat} {c' : SuffixDecodingCache N} (hrecycles : Recycles c)
    (hbefore : ∀ i < j, Busy c ((c.nextSeqId + i) % seqIdCount))
    (hnot : ¬ Busy c ((c.nextSeqId + j) % seqIdCount))
    (hlength : ∀ r, (r, Int32.ofNat ((c.nextSeqId + j) % seqIdCount)) ∈ c.reqToSeqId →
      c'.reqToSeqId.length + 1 = c.reqToSeqId.length) :
    c'.reqToSeqId.length < 1610612736 := by
  obtain ⟨k, r, hbefore', hfind, hinactive⟩ := hrecycles
  have hnot' : ¬ Busy c ((c.nextSeqId + k) % seqIdCount) := by
    intro hbusy
    obtain ⟨r', hr', hactive⟩ := hbusy
    rw [hfind] at hr'
    cases hr'
    rw [hinactive] at hactive
    cases hactive
  have hjk : j = k := by
    cases Nat.lt_trichotomy j k with
    | inl hlt => exact absurd (hbefore' j hlt) hnot
    | inr hge =>
        cases hge with
        | inl heq => exact heq
        | inr hgt => exact absurd (hbefore k hgt) hnot'
  subst hjk
  have hless := hlength r ((h.find_eq_some _ r).mp hfind)
  have hlimit := h.length_le
  omega

theorem generateSeqId (hreq : c.seqIdOf reqId = none) (hmax : c.maxCachedRequests ≠ 0)
    (fits : c.reqToSeqId.length < 1610612736 ∨ Recycles c) (hempty : response' reqId = [])
    (hsame : ∀ r ∈ c.cacheOrder, response' r = response r ∧ time' r = time r)
    (hlast : ∀ r ∈ c.cacheOrder, time' r < time' reqId) :
    Yields (c.generateSeqId ops reqId) (fun r => r.1 = true ∧
      InStep r.2 response' time' ∧ Bounded r.2) := by
  refine h.searchSeqId.bind fun p hp => ?_
  obtain ⟨j, hid, hbefore, hnot, hnext⟩ := hp
  have hset : InStep { c with nextSeqId := p.2 } response time := { h with next := hnext }
  refine Ensures.andThen (hset.recycle (Int32.ofNat p.1)) fun c' hc' => ?_
  obtain ⟨h', hrest, hnew, hsub, hlength⟩ := hc'
  have horder : ∀ r ∈ c'.cacheOrder, r ∈ c.cacheOrder := by
    intro r hr
    rw [h'.order] at hr
    rw [h.order]
    exact (hsub.map Prod.fst).subset hr
  have hreq' : c'.seqIdOf reqId = none := by
    cases hsome : c'.seqIdOf reqId with
    | none => rfl
    | some id =>
        have hin := hsub.subset (h'.seqIdOf_eq_some.mp hsome)
        have hin' := h.seqIdOf_eq_some.mpr hin
        rw [hreq] at hin'
        cases hin'
  have hroom : c'.reqToSeqId.length < 1610612736 := by
    cases fits with
    | inl hlt => exact Nat.lt_of_le_of_lt hsub.length_le hlt
    | inr hrecycles =>
        rw [hid] at hnot hlength
        exact h.recycle_fits hrecycles hbefore hnot hlength
  have hmax' : c'.maxCachedRequests ≠ 0 := hrest.maxCachedRequests ▸ hmax
  refine (h'.register hnew hreq' hmax' hroom hempty (fun r hr => hsame r (horder r hr))
    fun r hr => hlast r (horder r hr)).mono_post fun r hr => ?_
  exact ⟨hr.1, hr.2.1, hr.2.2.2⟩

end InStep

end Xllm.SuffixCache
