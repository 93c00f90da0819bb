import Xllm.Block.Held

/-!
# Accounting for used blocks

After every operation of a pool with the prefix cache, `num_used_blocks_` should be
the number of blocks that some sequence holds. The code adds and subtracts at four
places and drops handles at others, and it does not always get this right: a
matched block that is given up again, a failed `try_allocate` and a block that a
beam leaves behind are never counted down.

The conditions `SharedKept`, `BeamKept`, `StoreKept`, `DropKept` and `TryKept` say
for one statement of the pool that the count stays right, each in the state
before that statement. `run_usedBlocks` shows that the count is right in every
state of a run whose steps satisfy them.
-/

namespace Xllm

open Contract Ledger List

namespace Serving

variable {p p' : Serving} {options : Options} {rest hostRest : Multiset (Handle Int)}
variable {src₀ : List Block} {mayEmpty : Prop}

/-- The counter is right while a call is going on. The source blocks are those from
before the call or have been given up, and the sequence is left without blocks
only if it may be. -/
structure Counted (options : Options) (rest hostRest : Multiset (Handle Int)) (src₀ : List Block)
    (mayEmpty : Prop) (p : Serving) : Prop where
  good : p.Good options rest hostRest
  enabled : options.enablePrefixCache = true
  distinct : p.rank.blockManager.cachedIds.Nodup
  used_eq : p.rank.blockManager.numUsedBlocks = (ids (p.sequence.kvState.handles + rest)).card
  src : p.sequence.kvState.srcBlocks = src₀ ∨ p.sequence.kvState.srcBlocks = []
  empty : p.sequence.kvState.blocks = [] → mayEmpty

theorem Counted.entries_valid (h : Counted options rest hostRest src₀ mayEmpty p) :
    ∀ b ∈ p.rank.blockManager.prefixCache.entries, b.refCount.isSome :=
  fun b hb => (h.good.entries b hb).1

theorem Counted.cache_enabled (h : Counted options rest hostRest src₀ mayEmpty p) :
    p.rank.blockManager.options.enablePrefixCache = true := by
  rw [h.good.options_eq, h.enabled]

theorem Counted.embedding {ok : Bool} (h : Counted options rest hostRest src₀ mayEmpty p)
    (he : Embedded p ok p') : Counted options rest hostRest src₀ mayEmpty p' := by
  have hgood := he.good h.good
  obtain ⟨m, b, rfl⟩ := he.eq_setEmbedding
  exact ⟨hgood, h.enabled, h.distinct, h.used_eq, h.src, h.empty⟩

theorem ensures_with {α : Type} {x : Except Check α} {E : Check → Prop} {Q C : α → Prop}
    (h : Ensures x E Q) (hc : IfOk x C) : Ensures x E (fun a => Q a ∧ C a) :=
  (h.and hc).mono (fun _ he => he.1) fun _ ha => ha

theorem ids_handles_subset {bs : List Block} {live : Multiset (Handle Int)}
    (h : ∀ b ∈ bs, b.id ∈ ids live) : ids (handles bs) ⊆ ids live := by
  intro i hi
  obtain ⟨k, hk, rfl⟩ := mem_ids.mp hi
  obtain ⟨b, hb, hkb⟩ := mem_handles.mp hk
  rw [(Block.mem_handle.mp hkb).2]
  exact h b hb

section Shared

variable [XXH3]

/-- The matched blocks are distinct, the shared blocks of the sequence are in the
cache, and the handles that are given up are not the last ones of their blocks
outside the cache. -/
def SharedKept (p : Serving) (rest : Multiset (Handle Int)) : Prop :=
  (p.matched.map Block.id).Nodup ∧
    (∀ b ∈ p.existedSharedBlocks, b.id ∈ p.rank.blockManager.cachedIds) ∧
    ∀ b ∈ p.sequence.kvState.givenUp p.matched p.sequence.numTokens,
      b.id ∈ ids ((p.sequence.kvState.withShared p.matched p.sequence.numTokens).handles + rest)

instance (p : Serving) (rest : Multiset (Handle Int)) : Decidable (p.SharedKept rest) := by
  unfold SharedKept
  infer_instance

theorem matched_cached
    (hexisted : ∀ b ∈ p.existedSharedBlocks, b.id ∈ p.rank.blockManager.cachedIds) :
    ∀ b ∈ p.matched, b.id ∈ p.rank.blockManager.cachedIds := by
  intro b hb
  rw [matched, PrefixCache.matched] at hb
  split at hb
  · cases hb
  · rcases List.mem_append.mp hb with hb | hb
    · exact hexisted b hb
    · exact mem_map_of_mem (Lru.mem_of_mem_hits hb)

/-- The manager's part of `allocate_shared` counts the blocks that come into use. -/
theorem Counted.used_of_shared (h : Counted options rest hostRest src₀ mayEmpty p) {bs : List Block}
    {m : BlockManagerImpl}
    (hshared : Xllm.Sound.Shared p.rank.blockManager (p.sequence.kvState.handles + rest)
      p.sequence.tokens p.existedSharedBlocks bs m)
    (hnodup : (p.matched.map Block.id).Nodup)
    (hexisted : ∀ b ∈ p.existedSharedBlocks, b.id ∈ p.rank.blockManager.cachedIds) :
    bs = p.matched ∧ m.cachedIds.Nodup ∧
      m.numUsedBlocks = (ids (handles bs + (p.sequence.kvState.handles + rest))).card := by
  have hbs : bs = p.matched := by
    rw [hshared.blocks_eq, if_pos h.cache_enabled, matched]
  have hvalid : ∀ b ∈ bs, b.refCount.isSome := fun b hb => (proper_of_shared hshared h.good b hb).1
  have hused := hshared.used_add h.entries_valid h.distinct hvalid (hbs ▸ hnodup)
    (hbs ▸ matched_cached hexisted)
  have hbefore := h.used_eq
  refine ⟨hbs, ?_, by omega⟩
  exact (hshared.entries_perm.map Block.id).nodup_iff.mpr h.distinct

theorem Counted.allocateShared (h : Counted options rest hostRest src₀ mayEmpty p)
    (hkept : p.SharedKept rest) :
    Ensures p.allocateShared (· ≠ .blockAlreadyReleased)
      (Counted options rest hostRest src₀ mayEmpty) := by
  refine (allocateShared_ensures h.good.sound).mono ?_ fun p' hp => ?_
  · rintro e (⟨rfl, -⟩ | ⟨rfl, -⟩ | ⟨rfl | rfl, -⟩) <;> decide
  · obtain ⟨bs, m, hp⟩ := hp
    have hgood := hp.good h.good
    obtain ⟨hnodup, hexisted, hgiven⟩ := hkept
    obtain ⟨rfl, hdistinct, hused⟩ := h.used_of_shared hp.shared hnodup hexisted
    obtain ⟨heap, rfl⟩ := hp.state_eq
    refine ⟨hgood, h.enabled, hdistinct, ?_, ?_,
      fun hnil => h.empty (KVCacheState.blocks_nil_of_withShared hnil)⟩
    · show m.numUsedBlocks = _
      rw [hused, ← add_assoc, KVCacheState.handles_withShared, add_assoc,
        ids_add_of_subset (ids_handles_subset hgiven)]
      rfl
    · rw [setKvState_kvState, KVCacheState.withShared_srcBlocks]
      exact h.src

/-- The blocks that `cache` stores: those whose key the cache does not have. -/
def storedBlocks (p : Serving) : List Block :=
  Lru.walkStored Block.hashValue (p.rank.blockManager.prefixCache.stamped
      p.sequence.computedTokens p.sequence.kvState.blocks p.sequence.kvState.numOwnedSharedBlocks)
    ⟨p.rank.blockManager.prefixCache.entries, []⟩

/-- No block is stored that the cache has already, under another key. -/
def StoreKept (p : Serving) : Prop :=
  (p.storedBlocks.map Block.id ++ p.rank.blockManager.cachedIds).Nodup

instance (p : Serving) : Decidable p.StoreKept := by
  unfold StoreKept
  infer_instance

theorem Counted.cache (h : Counted options rest hostRest src₀ mayEmpty p) (hkept : p.StoreKept) :
    Ensures p.cache (· ≠ .blockAlreadyReleased) (Counted options rest hostRest src₀ mayEmpty) := by
  refine (cache_ensures h.good.sound).mono ?_ fun p' hp => ?_
  · rintro e (⟨rfl, -⟩ | ⟨rfl, -⟩ | ⟨rfl, -⟩) <;> decide
  · obtain ⟨bs, m, hp⟩ := hp
    have hgood := hp.good h.good
    have hstate := hp.state_eq
    subst hstate
    refine ⟨hgood, h.enabled, ?_, ?_, h.src, ?_⟩
    · have hentries := hp.cached.entries_eq
      rw [if_pos h.cache_enabled] at hentries
      have hperm := (h.good.sound.device.wf.walkStore_perm (p.rank.blockManager.prefixCache.stamped
        p.sequence.computedTokens p.sequence.kvState.blocks
        p.sequence.kvState.numOwnedSharedBlocks)).map Block.id
      rw [← hentries, map_append] at hperm
      exact hperm.nodup_iff.mpr hkept
    · have hsame : KVCacheState.handles { p.sequence.kvState with blocks := bs } =
          p.sequence.kvState.handles := by
        simp only [KVCacheState.handles, handles_eq_of_core hp.core_eq]
      rw [setKvState_kvState, hsame]
      exact hp.cached.used_eq.trans h.used_eq
    · intro hnil
      refine h.empty ?_
      have hcore := hp.core_eq
      simp only [setKvState_kvState] at hnil
      rw [hnil] at hcore
      exact List.map_eq_nil_iff.mp hcore.symm

end Shared

/-- The blocks of the sequence are distinct, and those that one other handle outside
the cache names are in the cache. -/
def DropKept (p : Serving) (rest : Multiset (Handle Int)) : Prop :=
  (p.sequence.kvState.blocks.map Block.id).Nodup ∧
    ∀ b ∈ p.sequence.kvState.blocks,
      ((handles p.sequence.kvState.srcBlocks + rest).map Handle.id).count b.id = 1 →
        b.id ∈ p.rank.blockManager.cachedIds

instance (p : Serving) (rest : Multiset (Handle Int)) : Decidable (p.DropKept rest) := by
  unfold DropKept
  infer_instance

theorem Counted.drop (h : Counted options rest hostRest src₀ mayEmpty p) (hkept : p.DropKept rest)
    (hempty : mayEmpty) (embedding : Bool) :
    Ensures (p.drop embedding) (· ≠ .blockAlreadyReleased)
      (Counted options rest hostRest src₀ mayEmpty) := by
  have hdevice := h.good.sound.device
  rw [KVCacheState.handles, add_assoc] at hdevice
  have hcard := hdevice.countP_releasable h.entries_valid h.distinct
    (fun b hb => (h.good.blocks b hb).1) hkept.1 hkept.2
  have hused := h.used_eq
  rw [KVCacheState.handles, add_assoc] at hused
  refine (drop_ensures h.good.sound embedding).mono ?_ fun p' hp => ?_
  · rintro e (rfl | ⟨rfl, -, hlt⟩)
    · decide
    · omega
  · obtain ⟨hdropped, hsound⟩ := hp
    have hgood := hdropped.good h.good hsound
    cases hdropped with
    | drop used device host m hcount hm =>
        have hcount := hcount h.cache_enabled
        refine ⟨hgood, h.enabled, h.distinct, ?_, h.src, fun _ => hempty⟩
        show used = (ids (p.sequence.kvState.cleared.handles + rest)).card
        rw [KVCacheState.handles_cleared]
        omega

/-- The blocks that beam search gives up are held by another sequence, or are among
the source blocks that it keeps. -/
def BeamKept (p : Serving) (rest : Multiset (Handle Int)) (needSwap : Bool) : Prop :=
  p.sequence.checkBeamSearch = true → p.sequence.kvState.srcBlocks ≠ [] →
    if needSwap = true ∧ p.sequence.kvState.needSwap = true then
      0 < p.rank.blockManager.available →
        ∀ b ∈ p.sequence.kvState.blocks ++ p.sequence.kvState.srcBlocks.getLast?.toList,
          b.id ∈ ids (handles p.sequence.kvState.srcBlocks.dropLast + rest)
    else ∀ b ∈ p.sequence.kvState.blocks, b.id ∈ ids (handles p.sequence.kvState.srcBlocks + rest)

instance (p : Serving) (rest : Multiset (Handle Int)) (needSwap : Bool) :
    Decidable (p.BeamKept rest needSwap) := by
  unfold BeamKept
  infer_instance

theorem Counted.processBeamSearch {E : Check → Prop}
    (h : Counted options rest hostRest src₀ mayEmpty p) {needSwap : Bool}
    (hkept : p.BeamKept rest needSwap) : Ensures (p.processBeamSearch needSwap) E
      (fun r => Counted options rest hostRest src₀ mayEmpty r.2) := by
  refine (processBeamSearch_ensures h.good.sound needSwap).total.mono_post fun r hr => ?_
  obtain ⟨ok, p'⟩ := r
  obtain ⟨hbeamed, hsound⟩ := hr
  have hgood := hbeamed.good h.good hsound
  cases hbeamed with
  | idle hidle => exact h
  | full m hbeam hsrc hswap hm =>
      have hused := hm.used_eq
      exact ⟨hgood, h.enabled, hm.distinct h.distinct, hused.trans h.used_eq, h.src, h.empty⟩
  | swapped b m heap hbeam hsrc hswap hm =>
      have hsome : 0 < p.rank.blockManager.available :=
        (hm.enough h.entries_valid).mp rfl
      have hgiven := hkept hbeam hsrc
      rw [if_pos hswap] at hgiven
      have hsub := ids_handles_subset (hgiven hsome)
      refine ⟨hgood, h.enabled, hm.distinct h.distinct, ?_, .inr rfl, fun hnil => ?_⟩
      · have hlast : p.sequence.kvState.srcBlocks.dropLast ++
            p.sequence.kvState.srcBlocks.getLast?.toList = p.sequence.kvState.srcBlocks := by
          rw [getLast?_eq_some_getLast hsrc]
          exact dropLast_append_getLast hsrc
        have hbefore : p.sequence.kvState.handles + rest =
            handles (p.sequence.kvState.blocks ++ p.sequence.kvState.srcBlocks.getLast?.toList) +
              (handles p.sequence.kvState.srcBlocks.dropLast + rest) := by
          rw [KVCacheState.handles]
          conv_lhs => rw [← hlast]
          simp only [handles_append]
          abel
        have hafter : KVCacheState.handles { p.sequence.kvState with
            blocks := p.sequence.kvState.srcBlocks.dropLast ++ [b], srcBlocks := [] } + rest =
            handles [b] + (handles p.sequence.kvState.srcBlocks.dropLast + rest) := by
          simp only [KVCacheState.handles, handles_append, handles_nil]
          abel
        have hcard := hm.card_ids
        have hused := hm.used_eq.trans (congrArg (· + [b].length) h.used_eq)
        rw [← hcard, hbefore, ids_add, ids_add_of_subset hsub] at hused
        rw [hafter, ids_add]
        exact hused
      · exact absurd (List.append_eq_nil_iff.mp hnil).2 (cons_ne_nil b [])
  | taken heap hbeam hsrc hswap =>
      have hgiven := hkept hbeam hsrc
      rw [if_neg hswap] at hgiven
      refine ⟨hgood, h.enabled, h.distinct, ?_, .inr rfl, fun hnil => absurd hnil hsrc⟩
      show p.rank.blockManager.numUsedBlocks = _
      simp only [KVCacheState.handles, handles_nil, add_zero]
      rw [h.used_eq, KVCacheState.handles, add_assoc, ids_add_of_subset (ids_handles_subset hgiven)]

variable {m : BlockManagerImpl}

theorem Counted.grow {bs : List Block} {n : Nat}
    (h : Counted options rest hostRest src₀ mayEmpty p)
    (hm : Xllm.Sound.Allocated p.rank.blockManager (p.sequence.kvState.handles + rest) n bs m)
    (hsound : ((p.setManager m).setKvState (p.sequence.kvState.addKvBlocks bs)).Sound
      rest hostRest) :
    Counted options rest hostRest src₀ mayEmpty
      ((p.setManager m).setKvState (p.sequence.kvState.addKvBlocks bs)) := by
  refine ⟨good_of_allocated h.good hm hsound, h.enabled, hm.distinct h.distinct, ?_,
    h.src, fun hnil => h.empty (List.append_eq_nil_iff.mp hnil).1⟩
  have hafter : (p.sequence.kvState.addKvBlocks bs).handles + rest =
      handles bs + (p.sequence.kvState.handles + rest) := by
    simp only [KVCacheState.addKvBlocks, KVCacheState.handles, handles_append]
    abel
  show m.numUsedBlocks = _
  rw [setKvState_kvState, hafter, hm.card_ids, hm.used_eq, h.used_eq]

theorem Counted.not_grown {n : Nat}
    (h : Counted options rest hostRest src₀ mayEmpty p)
    (hm : Xllm.Sound.Allocated p.rank.blockManager (p.sequence.kvState.handles + rest) n [] m)
    (hsound : ((p.setManager m).setKvState (p.sequence.kvState.addKvBlocks [])).Sound
      rest hostRest) : Counted options rest hostRest src₀ mayEmpty (p.setManager m) :=
  ⟨good_of_not_allocated h.good hm hsound, h.enabled, hm.distinct h.distinct,
    hm.used_eq.trans h.used_eq, h.src, h.empty⟩

theorem DropKept.not_grown {n : Nat} (hkept : p.DropKept rest)
    (h : Counted options rest hostRest src₀ mayEmpty p)
    (hm : Xllm.Sound.Allocated p.rank.blockManager (p.sequence.kvState.handles + rest) n [] m) :
    (p.setManager m).DropKept rest := by
  refine ⟨hkept.1, fun b hb hone => ?_⟩
  refine hm.cachedIds_mem h.good.sound.device h.entries_valid (hkept.2 b hb hone) ?_
  rw [KVCacheState.handles, ids_add, ids_add, Finset.mem_union, Finset.mem_union]
  exact .inl (.inl (id_mem_ids_handles hb (h.good.blocks b hb).1))

/-- The condition of `allocate` after the shared blocks. -/
def MoreKept (p : Serving) (rest : Multiset (Handle Int)) (numTokens : Nat)
    (startedEmpty : Bool) : Prop :=
  if (numTokens + p.blockSize - 1) / p.blockSize ≤ p.sequence.kvState.numKvBlocks then
    p.BeamKept rest true
  else p.BeamKept rest false ∧ (startedEmpty = true →
    Ensures (p.processBeamSearch false) (fun _ => True) (fun r =>
      r.2.rank.blockManager.available < p.numAdditionalBlocks numTokens → r.2.DropKept rest))

instance (p : Serving) (rest : Multiset (Handle Int)) (numTokens : Nat) (startedEmpty : Bool) :
    Decidable (p.MoreKept rest numTokens startedEmpty) := by
  unfold MoreKept
  infer_instance

theorem Counted.allocateMore (h : Counted options rest hostRest src₀ mayEmpty p) {numTokens : Nat}
    {startedEmpty : Bool} (hkept : p.MoreKept rest numTokens startedEmpty)
    (hempty : startedEmpty = true → mayEmpty) (needsId : Bool) :
    Ensures (p.allocateMore numTokens startedEmpty needsId) (· ≠ .blockAlreadyReleased)
      (fun r => Counted options rest hostRest src₀ mayEmpty r.2) := by
  refine allocateMore_rule (I := fun q => Counted options rest hostRest src₀ mayEmpty q ∧
    (startedEmpty = true →
      q.rank.blockManager.available < p.numAdditionalBlocks numTokens → q.DropKept rest))
    (fun hle => ?_) (fun hlt => ?_) ?_
  · rw [MoreKept, if_pos hle] at hkept
    exact h.processBeamSearch hkept
  · rw [MoreKept, if_neg (Nat.not_le_of_lt hlt)] at hkept
    cases startedEmpty with
    | false =>
        refine (h.processBeamSearch hkept.1).mono_post fun r hr => ⟨hr, ?_⟩
        intro hstarted
        cases hstarted
    | true =>
        exact (ensures_with (h.processBeamSearch hkept.1) (hkept.2 rfl)).mono_post
          fun r hr => ⟨hr.1, fun _ => hr.2⟩
  · intro q hq
    obtain ⟨hq, hdrop⟩ := hq
    refine (allocate_device_ensures hq.good.sound _).mono ?_ fun r hr => ?_
    · rintro e ⟨rfl, -⟩
      decide
    have hsmall : p.numAdditionalBlocks numTokens < 2 ^ 32 := Nat.mod_lt _ (by decide)
    have henough := hr.1.enough hq.entries_valid
    rw [Nat.mod_eq_of_lt hsmall] at henough
    split
    · exact hq.grow hr.1 hr.2
    · rename_i hlen
      have hnil : r.1 = [] := hr.1.length_eq.resolve_right hlen
      have hshort := Nat.lt_of_not_le fun hle => hlen (henough.mpr hle)
      rw [hnil] at hr
      have hset := hq.not_grown hr.1 hr.2
      rw [rollback]
      split
      · rename_i hstarted
        exact hset.drop ((hdrop hstarted hshort).not_grown hq hr.1) (hempty hstarted) needsId
      · exact hset

section Allocate

variable [XXH3]

def AllocateKept (p : Serving) (rest : Multiset (Handle Int)) (numTokens : Nat) : Prop :=
  Ensures p.allocateEmbeddingId (fun _ => True) (fun r => r.1 = true →
    if p.sequence.kvState.numKvBlocks = 0 then
      r.2.SharedKept rest ∧ Ensures r.2.allocateShared (fun _ => True)
        (fun q => q.MoreKept rest numTokens true)
    else r.2.MoreKept rest numTokens false)

instance (p : Serving) (rest : Multiset (Handle Int)) (numTokens : Nat) :
    Decidable (p.AllocateKept rest numTokens) := by
  unfold AllocateKept
  infer_instance

omit [XXH3] in
theorem Counted.allocateEmbeddingId (h : Counted options rest hostRest src₀ mayEmpty p) :
    Ensures p.allocateEmbeddingId (· ≠ .blockAlreadyReleased)
      (fun r => Counted options rest hostRest src₀ mayEmpty r.2) := by
  refine (allocateEmbeddingId_ensures p).mono ?_ fun r hr => h.embedding hr
  rintro e rfl
  decide

theorem Counted.allocate (h : Counted options rest hostRest src₀ mayEmpty p) {numTokens : Nat}
    (hkept : p.AllocateKept rest numTokens) :
    Ensures (p.allocate numTokens) (· ≠ .blockAlreadyReleased)
      (fun r => Counted options rest hostRest src₀ mayEmpty r.2) := by
  refine allocate_rule
    (I := fun q => Counted options rest hostRest src₀ mayEmpty q ∧
      if p.sequence.kvState.numKvBlocks = 0 then
        q.SharedKept rest ∧ IfOk q.allocateShared (fun q => q.MoreKept rest numTokens true)
      else q.MoreKept rest numTokens false)
    (J := fun q => Counted options rest hostRest src₀ mayEmpty q ∧
      q.MoreKept rest numTokens (decide (p.sequence.kvState.numKvBlocks = 0))) ?_ ?_ ?_
  · refine (ensures_with h.allocateEmbeddingId hkept).mono_post fun r hr => ?_
    split
    · rename_i hok
      exact ⟨hr.1, hr.2 hok⟩
    · exact hr.1
  · intro q hq
    split
    · rename_i hempty
      rw [if_pos hempty] at hq
      rw [hempty]
      exact ensures_with (hq.1.allocateShared hq.2.1) hq.2.2
    · rename_i hsome
      rw [if_neg hsome] at hq
      rwa [decide_eq_false hsome]
  · intro q hq
    refine hq.1.allocateMore hq.2 (fun hempty => h.empty ?_) _
    exact List.length_eq_zero_iff.mp (of_decide_eq_true hempty)

/-- The condition of `try_allocate`: the matched blocks are distinct and cached, and
when a match is followed by a lack of blocks, the sequence may be left without
blocks and every block that it then gives up is held by another sequence. -/
def TryKept (p : Serving) (rest : Multiset (Handle Int)) (mayEmpty : Prop) : Prop :=
  (p.matched.map Block.id).Nodup ∧
    (∀ b ∈ p.existedSharedBlocks, b.id ∈ p.rank.blockManager.cachedIds) ∧
    Ensures p.tryShared (fun _ => True) (fun r => r.1 ≠ [] →
      r.2.rank.blockManager.available < r.2.numBlocksNeeded r.1.length % 2 ^ 32 →
        mayEmpty ∧ ∀ b ∈ r.2.sequence.kvState.blocks,
          b.id ∈ ids (handles r.2.sequence.kvState.srcBlocks + rest))

instance (p : Serving) (rest : Multiset (Handle Int)) [Decidable mayEmpty] :
    Decidable (p.TryKept rest mayEmpty) := by
  unfold TryKept
  infer_instance

/-- The state of `try_allocate` between its two parts. -/
structure TryCounted (options : Options) (rest hostRest : Multiset (Handle Int))
    (src₀ : List Block) (mayEmpty : Prop) (shared : List Block) (p : Serving) : Prop where
  counted : Counted options (handles shared + rest) hostRest src₀ mayEmpty p
  copied : ∀ b ∈ shared, b ∈ p.sequence.kvState.blocks

theorem Counted.tryShared (h : Counted options rest hostRest src₀ mayEmpty p)
    (hnodup : (p.matched.map Block.id).Nodup)
    (hexisted : ∀ b ∈ p.existedSharedBlocks, b.id ∈ p.rank.blockManager.cachedIds) :
    Ensures p.tryShared (· ≠ .blockAlreadyReleased)
      (fun r => TryCounted options rest hostRest src₀ mayEmpty r.1 r.2) := by
  refine (tryShared_ensures h.good.sound).mono ?_ fun r hr => ?_
  · rintro e (⟨rfl, -⟩ | ⟨rfl, -⟩) <;> decide
  · obtain ⟨m, heap, hshared, -, hstate, hsound⟩ := hr
    have hgood := h.good.tryShared_of hshared hstate hsound
    obtain ⟨-, hdistinct, hused⟩ := h.used_of_shared hshared hnodup hexisted
    rw [hstate] at hgood ⊢
    refine ⟨⟨hgood, h.enabled, hdistinct, ?_, h.src, ?_⟩, ?_⟩
    · have hall : (p.withTryShared r.1).handles + (handles r.1 + rest) =
          handles r.1 + (handles r.1 + (p.sequence.kvState.handles + rest)) := by
        simp only [withTryShared, KVCacheState.handles, handles_append]
        abel
      have hsub : ids (handles r.1) ⊆
          ids (handles r.1 + (p.sequence.kvState.handles + rest)) := by
        rw [ids_add]
        exact Finset.subset_union_left
      show m.numUsedBlocks = _
      rw [hused, setKvState_kvState, hall, ids_add_of_subset hsub]
    · intro hnil
      exact h.empty (List.append_eq_nil_iff.mp hnil).1
    · intro b hb
      exact mem_append_right _ hb

omit [XXH3] in
/-- A matched block that another sequence holds has more than two handles while
`try_allocate` is running. -/
theorem TryCounted.countP_releasable {shared : List Block} {m : BlockManagerImpl} {n : Nat}
    (h : TryCounted options rest hostRest src₀ mayEmpty shared p)
    (hm : Xllm.Sound.Allocated p.rank.blockManager
      (p.sequence.kvState.handles + (handles shared + rest)) n [] m)
    (hheld : ∀ b ∈ shared, b.id ∈ ids (handles p.sequence.kvState.srcBlocks + rest)) :
    shared.countP m.releasable = 0 := by
  rw [countP_eq_zero]
  intro b hb
  have hvalid := (h.counted.good.blocks b (h.copied b hb)).1
  have hown := mem_ids_iff_count_pos.mp (id_mem_ids_handles (h.copied b hb) hvalid)
  have hvector := mem_ids_iff_count_pos.mp (id_mem_ids_handles hb hvalid)
  have hother := mem_ids_iff_count_pos.mp (hheld b hb)
  have hsound := hm.sound
  rw [handles_nil, zero_add] at hsound
  have hcount := hsound.refCount_eq (kvBlocks_le p _ b (h.copied b hb)) hvalid
  simp only [KVCacheState.handles, Multiset.map_add, Multiset.count_add] at hcount hother
  have hmany : 2 < m.heap.refCount b := by omega
  simp [BlockManagerImpl.releasable, Nat.not_le_of_lt hmany]

omit [XXH3] in
theorem TryCounted.tryMore {shared : List Block}
    (h : TryCounted options rest hostRest src₀ mayEmpty shared p)
    (hkept : shared ≠ [] →
      p.rank.blockManager.available < p.numBlocksNeeded shared.length % 2 ^ 32 →
        mayEmpty ∧ ∀ b ∈ p.sequence.kvState.blocks,
          b.id ∈ ids (handles p.sequence.kvState.srcBlocks + rest)) (needsId : Bool) :
    Ensures (p.tryMore shared needsId) (· ≠ .blockAlreadyReleased)
      (fun r => Counted options rest hostRest src₀ mayEmpty r.2) := by
  have hcounted := h.counted
  have hshort : ∀ m, Xllm.Sound.Allocated p.rank.blockManager
      (p.sequence.kvState.handles + (handles shared + rest))
        (p.numBlocksNeeded shared.length) [] m →
      p.numBlocksNeeded shared.length ≠ 0 → shared ≠ [] → mayEmpty ∧
      ∀ b ∈ p.sequence.kvState.blocks,
        b.id ∈ ids (handles p.sequence.kvState.srcBlocks + rest) := by
    intro m hm hne hsome
    refine hkept hsome (Nat.lt_of_not_le fun hle => hne ?_)
    exact ((hm.enough hcounted.entries_valid).mpr hle).symm
  refine (tryMore_ensures hcounted.good.sound needsId).mono ?_ fun r hr => ?_
  · rintro e (⟨rfl, -⟩ | ⟨rfl, -⟩ | rfl | ⟨rfl, hne, m, hm, hlt⟩)
    · decide
    · decide
    · decide
    · by_cases hnil : shared = []
      · simp [hnil] at hlt
      · obtain ⟨-, hheld⟩ := hshort m hm hne hnil
        rw [h.countP_releasable hm fun b hb => hheld b (h.copied b hb)] at hlt
        exact absurd hlt (Nat.not_lt_zero _)
  · obtain ⟨ok, p'⟩ := r
    obtain ⟨htried, hsound⟩ := hr
    have hgood := htried.good hcounted.good hsound
    cases htried with
    | grown blocks m heap hm hlen hroom =>
        refine ⟨hgood, hcounted.enabled, hm.distinct hcounted.distinct, ?_,
          hcounted.src, fun hnil => hcounted.empty (List.append_eq_nil_iff.mp hnil).1⟩
        have hcopies : ids (handles shared) ⊆
            ids (handles blocks + (p.sequence.kvState.handles + rest)) := by
          refine ids_handles_subset fun b hb => ?_
          have hb' := h.copied b hb
          rw [KVCacheState.handles, ids_add, ids_add, ids_add]
          simp only [Finset.mem_union]
          exact .inr (.inl (.inl (id_mem_ids_handles hb' (hcounted.good.blocks b hb').1)))
        have hbefore : handles blocks + (p.sequence.kvState.handles + (handles shared + rest)) =
            handles shared + (handles blocks + (p.sequence.kvState.handles + rest)) := by
          abel
        have hafter : KVCacheState.handles { p.sequence.kvState.addKvBlocks blocks with
            kvCacheTokensNum :=
              p.sequence.kvState.kvCacheTokensNum + p.sequence.numTokens } + rest =
            handles blocks + (p.sequence.kvState.handles + rest) := by
          simp only [KVCacheState.addKvBlocks, KVCacheState.handles, handles_append]
          abel
        have hcard := hm.card_ids
        rw [hbefore, ids_add_of_subset hcopies] at hcard
        have hused := hm.used_eq
        rw [hcounted.used_eq, ← hcard, ← hafter] at hused
        exact hused
    | failed m used device host em hm hne hused hid =>
        have hnone := hm.used_eq
        simp only [length_nil, Nat.add_zero] at hnone
        by_cases hnil : shared = []
        · subst hnil
          have hbefore := hcounted.used_eq
          rw [handles_nil, zero_add] at hbefore
          refine ⟨hgood, hcounted.enabled, hm.distinct hcounted.distinct, ?_,
            hcounted.src, hcounted.empty⟩
          rw [hused, hnone, hbefore]
          rfl
        · obtain ⟨hempty, hheld⟩ := hshort m hm hne hnil
          simp only [if_neg hnil] at hused hgood ⊢
          have hcount := hused (by rw [hm.options_eq, hcounted.cache_enabled])
          rw [h.countP_releasable hm fun b hb => hheld b (h.copied b hb), Nat.add_zero] at hcount
          refine ⟨hgood, hcounted.enabled, hm.distinct hcounted.distinct, ?_,
            hcounted.src, fun _ => hempty⟩
          have hgone : ids (handles p.sequence.kvState.blocks + handles shared) ⊆
              ids (handles p.sequence.kvState.srcBlocks + rest) := by
            rw [← handles_append]
            refine ids_handles_subset fun b hb => ?_
            rcases List.mem_append.mp hb with hb | hb
            · exact hheld b hb
            · exact hheld b (h.copied b hb)
          have hbefore : p.sequence.kvState.handles + (handles shared + rest) =
              handles p.sequence.kvState.blocks + handles shared +
                (handles p.sequence.kvState.srcBlocks + rest) := by
            rw [KVCacheState.handles]
            abel
          show used = (ids (p.sequence.kvState.cleared.handles + rest)).card
          rw [hcount, hnone, hcounted.used_eq, hbefore, ids_add_of_subset hgone,
            KVCacheState.handles_cleared]

theorem Counted.tryAllocate (h : Counted options rest hostRest src₀ mayEmpty p)
    (hkept : IfOk p.allocateEmbeddingId
      (fun r => r.1 = true → r.2.TryKept rest mayEmpty)) :
    Ensures p.tryAllocate (· ≠ .blockAlreadyReleased)
      (fun r => Counted options rest hostRest src₀ mayEmpty r.2) := by
  refine tryAllocate_rule
    (I := fun q => Counted options rest hostRest src₀ mayEmpty q ∧ q.TryKept rest mayEmpty)
    (J := fun bs q => TryCounted options rest hostRest src₀ mayEmpty bs q ∧ (bs ≠ [] →
      q.rank.blockManager.available < q.numBlocksNeeded bs.length % 2 ^ 32 →
        mayEmpty ∧ ∀ b ∈ q.sequence.kvState.blocks,
          b.id ∈ ids (handles q.sequence.kvState.srcBlocks + rest))) ?_ ?_ ?_
  · refine (ensures_with h.allocateEmbeddingId hkept).mono_post fun r hr => ?_
    split
    · rename_i hok
      exact ⟨hr.1, hr.2 hok⟩
    · exact hr.1
  · intro q hq
    obtain ⟨hq, hnodup, hexisted, hshort⟩ := hq
    exact ensures_with (hq.tryShared hnodup hexisted) hshort
  · intro bs q hq
    exact hq.1.tryMore hq.2 _

end Allocate

end Serving

namespace PoolState

/-- `num_used_blocks_` is the number of blocks that some sequence holds, and zero
once no sequence has blocks. -/
def Accounted (st : PoolState) : Prop :=
  st.rank.blockManager.numUsedBlocks = (ids (deviceHandles st.sequences)).card ∧
    ((∀ seq ∈ st.sequences, seq.kvState.blocks = []) → st.rank.blockManager.numUsedBlocks = 0)

instance (st : PoolState) : Decidable st.Accounted := by
  unfold Accounted
  infer_instance

/-- When the `i`-th sequence has no blocks, another one has some or no source blocks
are pending. -/
def MayEmpty (st : PoolState) (i : Nat) : Prop :=
  (∃ seq ∈ st.sequences.eraseIdx i, seq.kvState.blocks ≠ []) ∨
    ∀ seq ∈ st.sequences, seq.kvState.srcBlocks = []

instance (st : PoolState) (i : Nat) : Decidable (st.MayEmpty i) := by
  unfold MayEmpty
  infer_instance

section Run

variable [XXH3] {st : PoolState} {options : Options} {i : Nat}

/-- The steps after which the counter is still right. -/
def CountKept (st : PoolState) : PoolOp → Prop
  | .allocate i numTokens => ∀ seq ∈ st.sequences[i]?,
      Serving.AllocateKept ⟨st.rank, seq⟩ (st.others i) numTokens
  | .tryAllocate i => ∀ seq ∈ st.sequences[i]?,
      Ensures (Serving.allocateEmbeddingId ⟨st.rank, seq⟩) (fun _ => True)
        (fun r => r.1 = true → r.2.TryKept (st.others i) (st.MayEmpty i))
  | .allocateShared i => ∀ seq ∈ st.sequences[i]?,
      Serving.SharedKept ⟨st.rank, seq⟩ (st.others i)
  | .cache i => ∀ seq ∈ st.sequences[i]?, Serving.StoreKept ⟨st.rank, seq⟩
  | .deallocate i => ∀ seq ∈ st.sequences[i]?, st.MayEmpty i ∧
      Serving.StoreKept ⟨st.rank, seq⟩ ∧ Ensures (Serving.cache ⟨st.rank, seq⟩) (fun _ => True)
        (fun q => q.DropKept (st.others i))
  | .setSrcBlocks i j _ => ∀ seq ∈ st.sequences[i]?, ∀ other ∈ st.sequences[j]?,
      ∀ b ∈ seq.kvState.srcBlocks,
        b.id ∈ ids (handles seq.kvState.blocks + handles other.kvState.blocks + st.others i)
  | _ => True

instance (st : PoolState) (op : PoolOp) : Decidable (st.CountKept op) := by
  cases op <;> unfold CountKept <;> infer_instance

/-- The invariant of a run whose steps keep the count. -/
structure InvCounted (options : Options) (st : PoolState) : Prop where
  inv : Inv options st
  enabled : options.enablePrefixCache = true
  distinct : st.rank.blockManager.cachedIds.Nodup
  used_eq : st.rank.blockManager.numUsedBlocks = (ids (deviceHandles st.sequences)).card
  settled : (∀ seq ∈ st.sequences, seq.kvState.blocks = []) →
    ∀ seq ∈ st.sequences, seq.kvState.srcBlocks = []

omit [XXH3] in
theorem InvCounted.counted (h : InvCounted options st) {seq : Sequence}
    (hi : st.sequences[i]? = some seq) :
    Serving.Counted options (st.others i) (st.hostOthers i) seq.kvState.srcBlocks (st.MayEmpty i)
      ⟨st.rank, seq⟩ := by
  refine ⟨h.inv.good hi, h.enabled, h.distinct, ?_, .inl rfl, fun hnil => ?_⟩
  · have hused := h.used_eq
    rw [deviceHandles, sum_map_eraseIdx hi] at hused
    exact hused
  · by_cases hbusy : ∃ other ∈ st.sequences.eraseIdx i, other.kvState.blocks ≠ []
    · exact .inl hbusy
    · push Not at hbusy
      refine .inr (h.settled fun other hother => ?_)
      rcases mem_iff_getElem?.mp hother with ⟨j, hj⟩
      by_cases hij : j = i
      · rw [hij, hi] at hj
        cases hj
        exact hnil
      · exact hbusy other (mem_eraseIdx_iff_getElem?.mpr ⟨j, hij, hj⟩)

omit [XXH3] in
/-- What a call leaves counted for its sequence is the invariant for the pool. -/
theorem InvCounted.set {p : Serving} (h : InvCounted options st) {seq : Sequence}
    (hi : st.sequences[i]? = some seq)
    (hp : Serving.Counted options (st.others i) (st.hostOthers i) seq.kvState.srcBlocks
      (st.MayEmpty i) p) :
    InvCounted options ⟨p.rank, st.sequences.set i p.sequence⟩ := by
  obtain ⟨hlt, hseq⟩ := List.getElem?_eq_some_iff.mp hi
  refine ⟨h.inv.set hi hp.good, h.enabled, hp.distinct, ?_, fun hidle => ?_⟩
  · rw [deviceHandles, sum_map_set hi]
    exact hp.used_eq
  · have hothers : ∀ other ∈ st.sequences.eraseIdx i, other.kvState.blocks = [] := by
      intro other hother
      obtain ⟨j, hij, hj⟩ := mem_eraseIdx_iff_getElem?.mp hother
      refine hidle other (mem_iff_getElem?.mpr ⟨j, ?_⟩)
      rw [getElem?_set_ne (Ne.symm hij), hj]
    have hempty := hp.empty (hidle p.sequence (mem_set hlt _))
    have hsrc : ∀ other ∈ st.sequences, other.kvState.srcBlocks = [] := by
      rcases hempty with ⟨other, hother, hne⟩ | hsrc
      · exact absurd (hothers other hother) hne
      · exact hsrc
    intro s hs
    rcases mem_or_eq_of_mem_set hs with hs | rfl
    · exact hsrc s hs
    · rcases hp.src with heq | heq
      · rw [heq]
        exact hsrc seq (mem_of_getElem? hi)
      · exact heq

omit [XXH3] in
theorem InvCounted.serve {E : Check → Prop} {f : Serving → Except Check Serving}
    (h : InvCounted options st)
    (hf : ∀ seq, st.sequences[i]? = some seq → Ensures (f ⟨st.rank, seq⟩) E
      (Serving.Counted options (st.others i) (st.hostOthers i) seq.kvState.srcBlocks
        (st.MayEmpty i))) :
    Ensures (st.serve i f) E (InvCounted options) := by
  rw [PoolState.serve]
  split
  · exact h
  · rename_i seq hi
    exact (hf seq hi).bind fun p hp => h.set hi hp

omit [XXH3] in
theorem counted_setSequence {rest hostRest : Multiset (Handle Int)} {src₀ : List Block}
    {mayEmpty : Prop} {p : Serving} (hp : p.Counted options rest hostRest src₀ mayEmpty)
    {sequence : Sequence} (hblocks : sequence.kvState.blocks = p.sequence.kvState.blocks)
    (hsrc : sequence.kvState.srcBlocks = p.sequence.kvState.srcBlocks)
    (hhost : sequence.hostKvState = p.sequence.hostKvState) :
    Serving.Counted options rest hostRest src₀ mayEmpty { p with sequence := sequence } := by
  refine ⟨good_setSequence hp.good hblocks hsrc hhost, hp.enabled, hp.distinct, ?_, ?_, ?_⟩
  · rw [KVCacheState.handles, hblocks, hsrc]
    exact hp.used_eq
  · rw [hsrc]
    exact hp.src
  · rw [hblocks]
    exact hp.empty

omit [XXH3] in
/-- Naming the blocks of another sequence as a source brings no block into use. -/
theorem InvCounted.setSrcBlocks (h : InvCounted options st) {seq other : Sequence} {j : Nat}
    (hi : st.sequences[i]? = some seq) (hj : st.sequences[j]? = some other) {needSwap : Bool}
    {heap : BlockHeap}
    (hkept : ∀ b ∈ seq.kvState.srcBlocks,
      b.id ∈ ids (handles seq.kvState.blocks + handles other.kvState.blocks + st.others i))
    (hinv : Inv options ⟨{
      st.rank with blockManager := { st.rank.blockManager with heap := heap } },
      st.sequences.set i { seq with kvState := { seq.kvState with
        srcBlocks := other.kvState.blocks, needSwap := needSwap } }⟩) :
    InvCounted options ⟨{ st.rank with blockManager := { st.rank.blockManager with heap := heap } },
      st.sequences.set i { seq with kvState := { seq.kvState with
        srcBlocks := other.kvState.blocks, needSwap := needSwap } }⟩ := by
  have hbefore : deviceHandles st.sequences =
      handles seq.kvState.blocks + handles seq.kvState.srcBlocks + st.others i :=
    sum_map_eraseIdx hi
  have hother : ids (handles other.kvState.blocks) ⊆ ids (deviceHandles st.sequences) := by
    rw [deviceHandles, sum_map_eraseIdx hj, KVCacheState.handles, ids_add, ids_add]
    exact Finset.subset_union_left.trans Finset.subset_union_left
  refine ⟨hinv, h.enabled, h.distinct, ?_, fun hidle => ?_⟩
  · refine h.used_eq.trans (congrArg Finset.card ?_)
    have hsrc := Serving.ids_handles_subset hkept
    rw [deviceHandles, deviceHandles, sum_map_set hi]
    rw [hbefore] at hother
    rw [← deviceHandles, hbefore]
    simp only [KVCacheState.handles] at hother hsrc ⊢
    simp only [ids_add] at hother hsrc ⊢
    refine Finset.Subset.antisymm ?_ ?_
    · exact Finset.union_subset (Finset.union_subset
        (Finset.subset_union_left.trans Finset.subset_union_left) hsrc) Finset.subset_union_right
    · exact Finset.union_subset (Finset.union_subset
        (Finset.subset_union_left.trans Finset.subset_union_left) hother) Finset.subset_union_right
  · -- The blocks of all sequences are those from before the step.
    obtain ⟨hlt, hseq⟩ := List.getElem?_eq_some_iff.mp hi
    have hblocks : ∀ s ∈ st.sequences, s.kvState.blocks = [] := by
      intro s hs
      obtain ⟨k, hk⟩ := mem_iff_getElem?.mp hs
      by_cases hki : k = i
      · rw [hki, hi] at hk
        cases hk
        have hown := hidle _ (mem_set hlt _)
        exact hown
      · refine hidle s (mem_iff_getElem?.mpr ⟨k, ?_⟩)
        rw [getElem?_set_ne (Ne.symm hki), hk]
    intro s hs
    rcases mem_or_eq_of_mem_set hs with hs | rfl
    · exact h.settled hblocks s hs
    · exact hblocks other (mem_of_getElem? hj)

/-- A step that keeps the count keeps the invariant, and `deallocate` finds the counter
large enough. -/
theorem InvCounted.step (h : InvCounted options st) {op : PoolOp} (hop : st.CountKept op) :
    Ensures (st.step op) (· ≠ .blockAlreadyReleased) (InvCounted options) := by
  cases op with
  | arrive promptTokenIds capacity beamWidth =>
      refine ((Sequence.create_ensures promptTokenIds capacity beamWidth).mono ?_
        fun _ hs => hs).bind fun seq hs => ?_
      · rintro e rfl
        decide
      · obtain ⟨hkv, hhost, -⟩ := hs
        have hsame : deviceHandles (st.sequences ++ [seq]) = deviceHandles st.sequences := by
          simp [deviceHandles, hkv, KVCacheState.handles]
        refine ⟨h.inv.arrive hkv hhost, h.enabled, h.distinct, ?_, fun hidle => ?_⟩
        · rw [hsame]
          exact h.used_eq
        · intro s hs
          rcases List.mem_append.mp hs with hs | hs
          · exact h.settled (fun t ht => hidle t (mem_append_left _ ht)) s hs
          · simp [List.mem_singleton.mp hs, hkv]
  | allocate i numTokens =>
      rw [PoolState.step]
      refine h.serve fun seq hi => ?_
      exact ((h.counted hi).allocate (hop seq hi)).bind fun r hr => hr
  | tryAllocate i =>
      rw [PoolState.step]
      refine h.serve fun seq hi => ?_
      exact ((h.counted hi).tryAllocate (hop seq hi)).bind fun r hr => hr
  | allocateShared i =>
      exact h.serve fun seq hi => (h.counted hi).allocateShared (hop seq hi)
  | cache i => exact h.serve fun seq hi => (h.counted hi).cache (hop seq hi)
  | deallocate i =>
      refine h.serve fun seq hi => ?_
      obtain ⟨hempty, hstore, hdrop⟩ := hop seq hi
      exact Serving.deallocate_rule (Serving.ensures_with ((h.counted hi).cache hstore) hdrop)
        fun q hq => hq.1.drop hq.2 hempty true
  | forward i allowedMaxTokens cpSize isPrefill =>
      rw [PoolState.step]
      refine h.serve fun seq hi => ?_
      refine ((Sequence.processSingleSequence_ensures allowedMaxTokens cpSize isPrefill).mono ?_
        fun _ hr => hr).bind fun r hr => ?_
      · rintro e rfl
        decide
      · simp only [hr.2]
        exact counted_setSequence (h.counted hi) rfl rfl rfl
  | appendToken i token =>
      rw [PoolState.step]
      refine h.serve fun seq hi => ?_
      rw [Sequence.appendToken]
      split
      · exact counted_setSequence (h.counted hi) rfl rfl rfl
      · show Check.appendToken ≠ .blockAlreadyReleased
        decide
  | updateToken i index token =>
      rw [PoolState.step]
      refine h.serve fun seq hi => ?_
      exact counted_setSequence (h.counted hi) rfl rfl rfl
  | setSrcBlocks i j needSwap =>
      rw [PoolState.step]
      split
      · exact h
      · rename_i other hj
        have hinv := (h.inv.setSrcBlocks (mem_of_getElem? hj) i needSwap).total
          (E := (· ≠ .blockAlreadyReleased))
        rw [PoolState.serve] at hinv ⊢
        split
        · exact h
        · rename_i seq hi
          rw [hi] at hinv
          simp only [KVCacheState.setSrcBlocks] at hinv ⊢
          cases hheap : (st.rank.blockManager.heap.incAll other.kvState.blocks).decAll
              seq.kvState.srcBlocks with
          | error e =>
              rw [hheap] at hinv
              exact hinv
          | ok heap =>
              rw [hheap] at hinv
              exact h.setSrcBlocks hi hj (hop seq hi other hj) hinv

/-- In every run whose steps keep the count, `num_used_blocks_` is the number of
blocks that the sequences hold, it is never counted below zero, and it is zero once
all sequences have been deallocated. -/
theorem run_usedBlocks {hostOptions : Options} {numIds : Nat} {concurrent : Bool}
    (henabled : options.enablePrefixCache = true)
    (hst : create options hostOptions numIds concurrent = .ok st) {ops : List PoolOp}
    (hops : Along step CountKept st ops) :
    Ensures (run step st ops) (· ≠ .blockAlreadyReleased) Accounted := by
  obtain ⟨hinv, hnone, hused, hentries⟩ := Inv.create hst
  have hstart : InvCounted options st := by
    refine ⟨hinv, henabled, ?_, ?_, by simp [hnone]⟩
    · rw [BlockManagerImpl.cachedIds, hentries]
      exact nodup_nil
    · rw [hused, hnone]
      rfl
  refine (hops.ensures_run (fun _ _ h hop => h.step hop) hstart).mono_post ?_
  intro st' h
  refine ⟨h.used_eq, fun hidle => ?_⟩
  have hnothing : deviceHandles st'.sequences = 0 := by
    refine sum_eq_zero fun x hx => ?_
    obtain ⟨seq, hseq, rfl⟩ := List.mem_map.mp hx
    rw [KVCacheState.handles, hidle seq hseq, h.settled hidle seq hseq, handles_nil, zero_add]
  rw [h.used_eq, hnothing]
  rfl

end Run

/-- A second sequence with the same prompt matches both blocks and gives the last
one up again, but it stays counted, also after everything has been deallocated. -/
theorem popped_block_stays_counted :
    let _ : XXH3 := XXH3.lastBytes
    let start := create ⟨10, 2, true⟩ ⟨1, 2, true⟩ 4 false
    let ops : List PoolOp :=
      [.arrive [1, 2, 3, 4] 16 0, .arrive [1, 2, 3, 4] 16 0, .allocate 0 4, .forward 0 4 1 true,
        .deallocate 0, .allocate 1 4]
    Ensures (start >>= fun st => run step st ops) (fun _ => False)
        (fun st => st.rank.blockManager.numUsedBlocks = 3 ∧
          (ids (deviceHandles st.sequences)).card = 2) ∧
      Ensures (start >>= fun st => run step st (ops ++ [.deallocate 1])) (fun _ => False)
        (fun st => st.rank.blockManager.numUsedBlocks = 1 ∧
          ∀ seq ∈ st.sequences, seq.kvState.blocks = []) := by
  decide +kernel

/-- A run that keeps the count: two beams share two blocks, they exchange their block
lists, and both are deallocated. -/
theorem run_usedBlocks_beams :
    let _ : XXH3 := XXH3.lastBytes
    ∃ st, create ⟨10, 2, true⟩ ⟨1, 2, true⟩ 4 false = .ok st ∧
      Ensures (run step st [.arrive [1, 2, 3, 4, 5] 16 2, .arrive [1, 2, 3, 4, 5] 16 2,
          .allocate 0 5, .forward 0 5 1 true, .cache 0, .allocate 1 5, .forward 1 1 1 true,
          .setSrcBlocks 0 1 false, .setSrcBlocks 1 0 false, .allocate 0 5, .allocate 1 5,
          .deallocate 1, .deallocate 0]) (· ≠ .blockAlreadyReleased) Accounted := by
  intro hash
  have hst : create ⟨10, 2, true⟩ ⟨1, 2, true⟩ 4 false = .ok _ := rfl
  refine ⟨_, hst, run_usedBlocks rfl hst ?_⟩
  change Along (@step XXH3.lastBytes) (@CountKept XXH3.lastBytes) _ _
  clear hash
  decide +kernel

end PoolState

end Xllm
