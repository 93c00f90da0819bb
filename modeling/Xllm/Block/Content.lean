import Xllm.Block.Beamless
import Xllm.Block.KVInvariant
import Xllm.PrefixCache.Exact

/-!
# What the blocks hold

`cache` and `deallocate` put every full block below `kv_cache_tokens_num` into the prefix
cache, under a key that is computed from the tokens of the sequence. Nothing there looks at
the keys and values themselves. Here each position of each block has a ghost: the token
whose keys and values it holds.

A position of a sequence that is counted but not written yet is `pending`. The lemmas of
this module are about the calls that move handles and leave the contents alone: a block
from behind the shared ones is held by nobody else, or it is computed and will not be
written again.
-/

namespace Xllm

open Contract Ledger List Multiset

/-- The token whose keys and values a position of a block holds. -/
abbrev Content := Int → Nat → Option Token

/-- The positions of the block hold the tokens from which its key was computed, the last
ones of the prefix that the key stands for. -/
def Produced (content : Content) (blockSize : Nat) (b : Block) : Prop :=
  ∃ n, b.hashTokens.length = n + blockSize ∧
    ∀ r < blockSize, (content b.id r).isSome ∧ content b.id r = b.hashTokens[n + r]?

namespace Sequence

/-- The token at a position. Under overlap a placeholder stands for a token that is not
known yet, and behind the last token there is padding. -/
def known (seq : Sequence) (q : Nat) : Option Token :=
  if q < seq.numTokens then (seq.tokenBuffer[q]?).filter (0 ≤ ·) else none

theorem known_eq_some {seq : Sequence} {q : Nat} {token : Token} (h : seq.known q = some token) :
    q < seq.numTokens ∧ 0 ≤ token ∧ seq.tokenBuffer[q]? = some token := by
  rw [known] at h
  split at h
  · rename_i hlt
    obtain ⟨hget, hpos⟩ := Option.filter_eq_some_iff.mp h
    exact ⟨hlt, of_decide_eq_true hpos, hget⟩
  · cases h

/-- All positions of the `j`-th block are counted and written, and none is waited for. -/
def Computed (seq : Sequence) (content : Content) (blockSize : Nat) (pending : List Nat) (j : Nat)
    (b : Block) : Prop :=
  ∀ r < blockSize, j * blockSize + r < seq.kvState.kvCacheTokensNum ∧
    j * blockSize + r ∉ pending ∧ content b.id r = seq.known (j * blockSize + r)

/-- The blocks behind the shared ones, when `alone` says which blocks have no other holder.
A counted position is written or pending. -/
structure Tracked (seq : Sequence) (content : Content) (blockSize : Nat) (alone : Int → Prop)
    (pending : List Nat) : Prop where
  own : ∀ j b, seq.kvState.numOwnedSharedBlocks ≤ j → seq.kvState.blocks[j]? = some b →
    alone b.id ∨ seq.Computed content blockSize pending j b
  holds : ∀ q b, seq.kvState.numOwnedSharedBlocks * blockSize ≤ q →
    q < seq.kvState.kvCacheTokensNum → q ∉ pending →
    seq.kvState.blocks[q / blockSize]? = some b → content b.id (q % blockSize) = seq.known q
  late : ∀ q, seq.kvState.numOwnedSharedBlocks * blockSize ≤ q →
    q < seq.kvState.kvCacheTokensNum →
    seq.known q = none ∨ seq.kvState.blocks[q / blockSize]? = none → q ∈ pending

namespace Tracked

variable {seq seq' : Sequence} {content : Content} {blockSize : Nat} {alone alone' : Int → Prop}
  {pending : List Nat}

theorem of_nil (hblocks : seq.kvState.blocks = []) (hkv : seq.kvState.kvCacheTokensNum = 0) :
    seq.Tracked content blockSize alone pending := by
  refine ⟨fun j b _ hb => ?_, fun q b _ hq => ?_, fun q _ hq => ?_⟩
  · rw [hblocks] at hb
    cases hb
  · omega
  · omega

theorem mono (h : seq.Tracked content blockSize alone pending)
    (halone : ∀ b ∈ seq.kvState.blocks, alone b.id → alone' b.id) :
    seq.Tracked content blockSize alone' pending :=
  ⟨fun j b hj hb => (h.own j b hj hb).imp_left (halone b (mem_of_getElem? hb)), h.holds, h.late⟩

theorem append (h : seq.Tracked content blockSize alone pending) {bs : List Block}
    (hbs : ∀ b ∈ bs, alone b.id) :
    Tracked { seq with kvState := seq.kvState.addKvBlocks bs } content blockSize alone pending := by
  have hget : ∀ (j : Nat) b, (seq.kvState.blocks ++ bs)[j]? = some b →
      seq.kvState.blocks[j]? = some b ∨ seq.kvState.blocks[j]? = none ∧ b ∈ bs := by
    intro j b hb
    by_cases hlt : j < seq.kvState.blocks.length
    · rw [getElem?_append_left hlt] at hb
      exact .inl hb
    · rw [getElem?_append_right (Nat.le_of_not_lt hlt)] at hb
      exact .inr ⟨getElem?_eq_none (Nat.le_of_not_lt hlt), mem_of_getElem? hb⟩
  refine ⟨fun j b hj hb => ?_, fun q b hq hlt hnot hb => ?_, fun q hq hlt hnone => ?_⟩
  · rcases hget j b hb with hb | ⟨-, hb⟩
    · exact h.own j b hj hb
    · exact .inl (hbs b hb)
  · rcases hget _ b hb with hb | ⟨hnone, -⟩
    · exact h.holds q b hq hlt hnot hb
    · exact absurd (h.late q hq hlt (.inr hnone)) hnot
  · refine h.late q hq hlt (hnone.imp_right fun hnone => ?_)
    rw [List.getElem?_eq_none_iff] at hnone ⊢
    change (seq.kvState.blocks ++ bs).length ≤ _ at hnone
    rw [length_append] at hnone
    omega

theorem of_shared {blocks : List Block} {shared count : Nat} (hblocks : blocks.length ≤ shared)
    (hcount : count ≤ shared * blockSize) :
    Tracked { seq with kvState := { seq.kvState with
      blocks := blocks
      numOwnedSharedBlocks := shared
      kvCacheTokensNum := count } } content blockSize alone pending := by
  refine ⟨fun j b hj hb => ?_, fun q b hq hlt => ?_, fun q hq hlt => ?_⟩
  · have hlt := (List.getElem?_eq_some_iff.mp hb).1
    exact absurd (hblocks.trans hj) (Nat.not_le_of_lt hlt)
  · exact absurd (hcount.trans hq) (Nat.not_le_of_lt hlt)
  · exact absurd (hcount.trans hq) (Nat.not_le_of_lt hlt)

theorem replace (h : seq.Tracked content blockSize alone pending) (hpos : 0 < blockSize)
    {blocks : List Block} (hlt : seq.kvState.numOwnedSharedBlocks < blocks.length)
    (halone : ∀ (j : Nat) b, blocks.length ≤ j → seq.kvState.blocks[j]? = some b →
      alone b.id → alone' b.id) :
    Tracked { seq with kvState := { seq.kvState with
      blocks := blocks ++ seq.kvState.blocks.drop blocks.length
      numOwnedSharedBlocks := blocks.length } } content blockSize alone' pending := by
  have hget : ∀ j : Nat, blocks.length ≤ j →
      (blocks ++ seq.kvState.blocks.drop blocks.length)[j]? = seq.kvState.blocks[j]? := by
    intro j hj
    rw [getElem?_append_right hj, getElem?_drop, Nat.add_sub_cancel' hj]
  have hindex : ∀ q, blocks.length * blockSize ≤ q → blocks.length ≤ q / blockSize :=
    fun q hq => (Nat.le_div_iff_mul_le hpos).mpr hq
  have hshared : seq.kvState.numOwnedSharedBlocks * blockSize ≤ blocks.length * blockSize :=
    Nat.mul_le_mul_right _ (Nat.le_of_lt hlt)
  refine ⟨fun j b hj hb => ?_, fun q b hq hcount hnot hb => ?_, fun q hq hcount hnone => ?_⟩
  · have hold := (hget j hj).symm.trans hb
    exact (h.own j b ((Nat.le_of_lt hlt).trans hj) hold).imp_left (halone j b hj hold)
  · exact h.holds q b (hshared.trans hq) hcount hnot ((hget _ (hindex q hq)).symm.trans hb)
  · refine h.late q (hshared.trans hq) hcount (hnone.imp_right fun hnone => ?_)
    exact (hget _ (hindex q hq)).symm.trans hnone

theorem computed (h : seq.Tracked content blockSize alone pending) {j : Nat} {b : Block}
    (hj : seq.kvState.numOwnedSharedBlocks ≤ j) (hb : seq.kvState.blocks[j]? = some b)
    (hfull : (j + 1) * blockSize ≤ seq.kvState.kvCacheTokensNum)
    (hpending : ∀ q ∈ pending, j * blockSize ≤ q → (j + 1) * blockSize ≤ q) :
    seq.Computed content blockSize pending j b := by
  intro r hr
  rw [Nat.succ_mul] at hfull
  have hnot : j * blockSize + r ∉ pending := by
    intro hmem
    have hle := hpending _ hmem (Nat.le_add_right _ _)
    rw [Nat.succ_mul] at hle
    omega
  have hshared := Nat.mul_le_mul_right blockSize hj
  have hdiv : (j * blockSize + r) / blockSize = j := by
    rw [Nat.mul_comm, Nat.mul_add_div (by omega), Nat.div_eq_of_lt hr, Nat.add_zero]
  have hmod : (j * blockSize + r) % blockSize = r := by
    rw [Nat.mul_comm, Nat.mul_add_mod, Nat.mod_eq_of_lt hr]
  have hholds := h.holds (j * blockSize + r) b (by omega) (by omega) hnot (by rw [hdiv]; exact hb)
  rw [hmod] at hholds
  exact ⟨by omega, hnot, hholds⟩

theorem exists_token (h : seq.Tracked content blockSize alone pending) {j : Nat} {b : Block}
    (hj : seq.kvState.numOwnedSharedBlocks ≤ j) (hc : seq.Computed content blockSize pending j b)
    {r : Nat} (hr : r < blockSize) :
    ∃ token, content b.id r = some token ∧ j * blockSize + r < seq.numTokens ∧
      seq.tokenBuffer[j * blockSize + r]? = some token := by
  obtain ⟨hlt, hnot, hcontent⟩ := hc r hr
  have hshared := Nat.mul_le_mul_right blockSize hj
  cases hknown : seq.known (j * blockSize + r) with
  | none => exact absurd (h.late _ (by omega) hlt (.inl hknown)) hnot
  | some token =>
      obtain ⟨hnum, -, hget⟩ := known_eq_some hknown
      exact ⟨token, hcontent.trans hknown, hnum, hget⟩

end Tracked

end Sequence

namespace Serving

variable {p q : Serving} {options : Options} {rest rest' hostRest : Multiset (Handle Int)}
  {content : Content} {pending : List Nat}

def holders (p : Serving) (rest : Multiset (Handle Int)) (id : Int) : Nat :=
  p.rank.blockManager.cachedIds.count id + (p.sequence.kvState.blocks.map Block.id).count id +
    (rest.map Handle.id).count id

def Alone (p : Serving) (rest : Multiset (Handle Int)) (id : Int) : Prop := p.holders rest id = 1

/-- Blocks of the other sequences that had one holder still have one. `rest'` are their
handles and maybe others that are about to be dropped. -/
def Spares (p : Serving) (rest : Multiset (Handle Int)) (q : Serving)
    (rest' : Multiset (Handle Int)) : Prop :=
  ∀ id, 0 < (rest.map Handle.id).count id → p.Alone rest id → q.Alone rest' id

theorem Spares.refl : p.Spares rest p rest := fun _ _ h => h

theorem Spares.trans {q' : Serving} (h : p.Spares rest q rest) (h' : q.Spares rest q' rest') :
    p.Spares rest q' rest' := fun id hid halone => h' id hid (h id hid halone)

theorem spares_of_holders_le (h : ∀ id, 0 < (rest.map Handle.id).count id →
    q.holders rest id ≤ p.holders rest id) : p.Spares rest q rest := by
  intro id hid halone
  have hle := h id hid
  rw [Alone] at halone ⊢
  have hself : (rest.map Handle.id).count id ≤ q.holders rest id := Nat.le_add_left _ _
  omega

theorem count_pos_of_mem {bs : List Block} {b : Block} (hb : b ∈ bs) :
    0 < (bs.map Block.id).count b.id :=
  List.count_pos_iff.mpr (List.mem_map_of_mem hb)

theorem count_take_add_drop (bs : List Block) (n : Nat) (id : Int) :
    ((bs.take n).map Block.id).count id + ((bs.drop n).map Block.id).count id =
      (bs.map Block.id).count id := by
  rw [← count_append, ← map_append, take_append_drop]

theorem index_eq_of_count {bs : List Block} {i j : Nat} {a b : Block} (hi : bs[i]? = some a)
    (hj : bs[j]? = some b) (hid : a.id = b.id) (hone : (bs.map Block.id).count b.id ≤ 1) :
      i = j := by
  have hboth : ∀ {i j : Nat} {a b : Block}, bs[i]? = some a → bs[j]? = some b → a.id = b.id →
      i < j → 2 ≤ (bs.map Block.id).count b.id := by
    intro i j a b hi hj hid hlt
    have hfirst : a ∈ bs.take j :=
      mem_of_getElem? (i := i) (by rw [getElem?_take_of_lt hlt]; exact hi)
    have hsecond : b ∈ bs.drop j :=
      mem_of_getElem? (i := 0) (by rw [getElem?_drop]; exact hj)
    have hsplit := count_take_add_drop bs j b.id
    have hleft := count_pos_of_mem hfirst
    have hright := count_pos_of_mem hsecond
    rw [hid] at hleft
    omega
  rcases Nat.lt_trichotomy i j with hlt | heq | hgt
  · have htwo := hboth hi hj hid hlt
    omega
  · exact heq
  · have htwo := hboth hj hi hid.symm hgt
    rw [hid] at htwo
    omega

/-- The blocks of a sequence and of the cache, and what they hold. -/
structure Stocked (options : Options) (content : Content) (pending : List Nat)
    (rest hostRest : Multiset (Handle Int)) (p : Serving) : Prop
    extends p.Beamless options rest hostRest where
  produced : ∀ b ∈ p.rank.blockManager.prefixCache.entries, Produced content options.blockSize b
  tracked : p.sequence.Tracked content options.blockSize (p.Alone rest) pending

namespace Stocked

theorem allocateEmbeddingId (h : p.Stocked options content pending rest hostRest) :
    IfOk p.allocateEmbeddingId (fun r =>
      Stocked options content pending rest hostRest r.2 ∧ p.Spares rest r.2 rest ∧
        r.2.sequence.kvState = p.sequence.kvState) := by
  refine (allocateEmbeddingId_ensures p).mono (fun _ _ => trivial) fun r he => ?_
  have hgood := he.good h.toGood
  obtain ⟨m, b, heq⟩ := he.eq_setEmbedding
  rw [heq] at hgood ⊢
  exact ⟨⟨⟨hgood, h.src_nil, h.entries_nil⟩, h.produced, h.tracked.own, h.tracked.holds,
    h.tracked.late⟩, .refl, rfl⟩

theorem drop (h : p.Stocked options content pending rest hostRest) (embedding : Bool) :
    IfOk (p.drop embedding) (fun q =>
      q.Stocked options content pending rest hostRest ∧ p.Spares rest q rest) := by
  refine (h.toBeamless.drop embedding).and (drop_ensures h.sound embedding) |>.mono
    (fun _ _ => trivial) fun q hq => ?_
  obtain ⟨⟨hbeamless, -⟩, hdropped, -⟩ := hq
  obtain ⟨used, device, host, m, hused, hm⟩ := hdropped
  refine ⟨⟨hbeamless, h.produced, .of_nil rfl rfl⟩, spares_of_holders_le fun id _ => ?_⟩
  exact Nat.add_le_add_right (Nat.add_le_add_left (Nat.zero_le _) _) _

/-- New blocks hold no counted position. -/
theorem grow (h : p.Stocked options content pending rest hostRest) {n : Nat} {bs : List Block}
    {m : BlockManagerImpl}
    (hm : Xllm.Sound.Allocated p.rank.blockManager (p.sequence.kvState.handles + rest) n bs m)
    (hsound : ((p.setManager m).setKvState (p.sequence.kvState.addKvBlocks bs)).Sound
      rest hostRest) :
    ((p.setManager m).setKvState (p.sequence.kvState.addKvBlocks bs)).Stocked
        options content pending rest hostRest ∧
      p.Spares rest ((p.setManager m).setKvState (p.sequence.kvState.addKvBlocks bs)) rest := by
  have hbeamless := h.toBeamless.grow hm hsound
  have hids : (p.sequence.kvState.addKvBlocks bs).blocks.map Block.id =
      p.sequence.kvState.blocks.map Block.id ++ bs.map Block.id := map_append
  have hentries : m.prefixCache.entries.Sublist p.rank.blockManager.prefixCache.entries := by
    obtain ⟨k, heq, -⟩ := hm.swept
    rw [heq]
    exact Lru.sweep_kept_sublist k _
  have hholders : ∀ id, ((p.setManager m).setKvState (p.sequence.kvState.addKvBlocks bs)).holders
      rest id = m.cachedIds.count id + ((p.sequence.kvState.blocks.map Block.id).count id +
        (bs.map Block.id).count id) + (rest.map Handle.id).count id := by
    intro id
    rw [holders, setKvState_kvState, hids, count_append]
    rfl
  have hfresh : ∀ b ∈ bs, ((p.setManager m).setKvState
      (p.sequence.kvState.addKvBlocks bs)).Alone rest b.id := by
    intro b hb
    have hone := hm.fresh b hb
    rw [hm.sound.refCount_eq_add (fun c hc => (hbeamless.entries c hc).1)
      ((handle_le_handles hb).trans (Multiset.le_add_right _ _)) (hm.valid b hb)] at hone
    rw [KVCacheState.handles, h.src_nil, handles_nil, add_zero, Multiset.map_add,
      Multiset.map_add, count_add, count_add, map_id_handles hm.valid,
      map_id_handles fun c hc => (h.blocks c hc).1, coe_count, coe_count] at hone
    rw [Alone, hholders]
    omega
  -- a block that somebody holds is not among the new ones
  have hle : ∀ id, 0 < (p.sequence.kvState.blocks.map Block.id).count id +
      (rest.map Handle.id).count id → ((p.setManager m).setKvState
        (p.sequence.kvState.addKvBlocks bs)).holders rest id ≤ p.holders rest id := by
    intro id hid
    have hnone : (bs.map Block.id).count id = 0 := by
      rw [List.count_eq_zero]
      intro hmem
      obtain ⟨b, hb, rfl⟩ := List.mem_map.mp hmem
      have hone := hfresh b hb
      have hpos := count_pos_of_mem hb
      rw [Alone, hholders] at hone
      omega
    have hcount : m.cachedIds.count id ≤ p.rank.blockManager.cachedIds.count id :=
      (hentries.map Block.id).count_le id
    rw [hholders, holders]
    omega
  have halone : ∀ b ∈ p.sequence.kvState.blocks, p.Alone rest b.id → ((p.setManager m).setKvState
      (p.sequence.kvState.addKvBlocks bs)).Alone rest b.id := by
    intro b hb hone
    have hpos := count_pos_of_mem hb
    have hbound := hle b.id (by omega)
    rw [Alone] at hone ⊢
    rw [hholders] at hbound ⊢
    omega
  refine ⟨⟨hbeamless, fun b hb => ?_, ?_⟩, spares_of_holders_le fun id hid => hle id (by omega)⟩
  · exact h.produced b (hentries.subset hb)
  · exact (h.tracked.mono halone).append fun b hb => hfresh b hb

theorem not_grown (h : p.Stocked options content pending rest hostRest) {n : Nat}
    {m : BlockManagerImpl}
    (hm : Xllm.Sound.Allocated p.rank.blockManager (p.sequence.kvState.handles + rest) n [] m)
    (hsound : ((p.setManager m).setKvState (p.sequence.kvState.addKvBlocks [])).Sound
      rest hostRest) :
    (p.setManager m).Stocked options content pending rest hostRest ∧
      p.Spares rest (p.setManager m) rest := by
  have hgrown := h.grow hm hsound
  have hsame : (p.setManager m).setKvState (p.sequence.kvState.addKvBlocks []) =
      p.setManager m := by
    simp only [KVCacheState.addKvBlocks, append_nil]
    rfl
  rw [hsame] at hgrown
  exact hgrown

theorem allocateMore (h : p.Stocked options content pending rest hostRest) (numTokens : Nat)
    (startedEmpty needsId : Bool) : IfOk (p.allocateMore numTokens startedEmpty needsId) (fun r =>
      Stocked options content pending rest hostRest r.2 ∧ p.Spares rest r.2 rest) := by
  refine allocateMore_rule (I := fun q => q = p) (fun _ => ?_) (fun _ => ?_) ?_
  · rw [h.toBeamless.processBeamSearch]
    exact ⟨h, .refl⟩
  · rw [h.toBeamless.processBeamSearch]
    exact rfl
  · rintro q rfl
    refine (allocate_device_ensures h.sound _).mono (fun _ _ => trivial) fun r hr => ?_
    split
    · exact h.grow hr.1 hr.2
    · rename_i hlen
      have hnil : r.1 = [] := hr.1.length_eq.resolve_right hlen
      rw [hnil] at hr
      obtain ⟨hstocked, hspares⟩ := h.not_grown hr.1 hr.2
      rw [rollback]
      split
      · exact (hstocked.drop needsId).mono_post fun _ hd => ⟨hd.1, hspares.trans hd.2⟩
      · exact ⟨hstocked, hspares⟩

section

variable [XXH3]

theorem mem_of_shared {bs : List Block} {m : BlockManagerImpl} {live : Multiset (Handle Int)}
    (h : Xllm.Sound.Shared p.rank.blockManager live p.sequence.tokens p.existedSharedBlocks bs m)
    {b : Block} (hb : b ∈ bs) : b ∈ p.rank.blockManager.prefixCache.entries ∨
      b ∈ p.sequence.kvState.blocks.take p.sequence.kvState.numOwnedSharedBlocks := by
  rw [h.blocks_eq] at hb
  split at hb
  · rw [PrefixCache.matched] at hb
    split at hb
    · cases hb
    · rcases List.mem_append.mp hb with hb | hb
      · rw [existedSharedBlocks] at hb
        split at hb
        · cases hb
        · exact .inr hb
      · exact .inl (Lru.mem_of_mem_hits hb)
  · cases hb

/-- Blocks of the sequence from behind the matched ones that nobody else holds are still its
own, and so are those of the other sequences. -/
theorem allocateShared (h : p.Stocked options content pending rest hostRest) :
    IfOk p.allocateShared (fun q =>
      q.Stocked options content pending rest hostRest ∧ p.Spares rest q rest) := by
  refine (h.toBeamless.allocateShared.and (allocateShared_ensures h.sound)).mono
    (fun _ _ => trivial) fun q hq => ?_
  obtain ⟨hbeamless, bs, m, hshared, ⟨heap, rfl⟩, -⟩ := hq
  have hsize := headSize_of_proper (proper_of_shared hshared h.toGood)
  have hcached : ∀ id, m.cachedIds.count id = p.rank.blockManager.cachedIds.count id :=
    (hshared.entries_perm.map Block.id).count_eq
  have hpos : 0 < options.blockSize := by
    rw [← h.options_eq]
    exact h.sound.device.blockSize_pos
  have hmatched : ∀ b ∈ bs, 0 < p.rank.blockManager.cachedIds.count b.id ∨
      0 < ((p.sequence.kvState.blocks.take p.sequence.kvState.numOwnedSharedBlocks).map
        Block.id).count b.id := fun b hb =>
    (mem_of_shared hshared hb).imp count_pos_of_mem count_pos_of_mem
  have htake := count_take_add_drop p.sequence.kvState.blocks
  refine ⟨⟨hbeamless, fun b hb => h.produced b (hshared.entries_perm.mem_iff.mp hb), ?_⟩, ?_⟩
  · have hkeep : p.sequence.Tracked content options.blockSize
        (((p.setManager { m with heap := heap }).setKvState p.sequence.kvState).Alone rest)
        pending := by
      refine h.tracked.mono fun b _ hone => ?_
      rw [Alone, holders] at hone ⊢
      rw [← hone, ← hcached]
      rfl
    rw [KVCacheState.withShared]
    split
    · exact hkeep
    rename_i hnil
    rw [hsize hnil]
    split
    · split
      · rename_i hlt
        refine h.tracked.replace hpos hlt fun j b hj hb hone => ?_
        have hmem : b ∈ p.sequence.kvState.blocks.drop bs.length := by
          refine mem_of_getElem? (i := j - bs.length) ?_
          rw [getElem?_drop, Nat.add_sub_cancel' hj]
          exact hb
        have hpos' := count_pos_of_mem hmem
        have hsplit := htake bs.length b.id
        rw [Alone, holders] at hone
        -- the block is not among the matched ones
        have hnone : (bs.map Block.id).count b.id = 0 := by
          rw [List.count_eq_zero]
          intro hid
          obtain ⟨c, hc, hcid⟩ := List.mem_map.mp hid
          have hheld := hmatched c hc
          have hless : ((p.sequence.kvState.blocks.take
              p.sequence.kvState.numOwnedSharedBlocks).map Block.id).count b.id ≤
              ((p.sequence.kvState.blocks.take bs.length).map Block.id).count b.id :=
            ((take_sublist_take_left (Nat.le_of_lt hlt)).map Block.id).count_le _
          rw [hcid] at hheld
          omega
        rw [Alone, holders, setKvState_kvState, map_append, count_append]
        change m.cachedIds.count b.id + _ + _ = 1
        rw [hcached]
        omega
      · exact hkeep
    · split
      · rename_i hexact
        refine .of_shared (by rw [length_dropLast]) ?_
        have hcount : (p.sequence.numTokens - 1) / options.blockSize ≤ bs.length - 1 := by
          refine Nat.le_sub_one_of_lt ((Nat.div_lt_iff_lt_mul hpos).mpr ?_)
          have hlen : 0 < bs.length * options.blockSize :=
            Nat.mul_pos (List.length_pos_iff.mpr hnil) hpos
          omega
        exact Nat.mul_le_mul_right _ hcount
      · exact .of_shared (Nat.le_refl _) (Nat.le_refl _)
  · intro id hid hone
    rw [Alone, holders] at hone
    have hnone : ((p.sequence.kvState.withShared bs p.sequence.numTokens).blocks.map
        Block.id).count id = 0 := by
      rw [List.count_eq_zero]
      intro hmem
      obtain ⟨b, hb, rfl⟩ := List.mem_map.mp hmem
      rcases mem_of_mem_withShared hb with hb | hb
      · have hsplit := htake p.sequence.kvState.numOwnedSharedBlocks b.id
        have hheld := hmatched b hb
        omega
      · have hheld := count_pos_of_mem hb
        omega
    rw [Alone, holders, setKvState_kvState, hnone]
    change m.cachedIds.count id + 0 + _ = 1
    rw [hcached]
    omega

omit [XXH3] in
theorem getElem?_of_core {bs cs : List Block} (h : bs.map Block.core = cs.map Block.core) {j : Nat}
    {b : Block} (hb : bs[j]? = some b) : ∃ c, cs[j]? = some c ∧ c.id = b.id := by
  have hcore := congrArg (fun l => l[j]?) h
  simp only [getElem?_map, hb] at hcore
  obtain ⟨c, hc, heq⟩ := Option.map_eq_some_iff.mp hcore.symm
  exact ⟨c, hc, (Block.core_eq_iff.mp heq).1⟩

theorem exists_index_of_mem_stamped {c : PrefixCache} {tokenIds : List Token} {blocks : List Block}
    {k : Nat} {b : Block} (hb : b ∈ c.stamped tokenIds blocks k) :
    ∃ j a, k ≤ j ∧ j < c.insertCount tokenIds blocks ∧ blocks[j]? = some a ∧ a.id = b.id ∧
      b.hashTokens = tokenIds.take ((j + 1) * c.blockSize) := by
  obtain ⟨i, hi⟩ := getElem?_of_mem hb
  obtain ⟨e, key, he, -, rfl⟩ := PrefixCache.getElem?_stamp _ _ _ _ _ _ hi
  rw [getElem?_drop] at he
  obtain ⟨hlt, heq⟩ := List.getElem?_eq_some_iff.mp he
  rw [length_zip, tokenBlocks_length] at hlt
  refine ⟨k + i, e.2, Nat.le_add_right _ _, hlt, ?_, rfl, rfl⟩
  exact (List.getElem?_zip_eq_some.mp he).2

theorem exists_stored {m m' : BlockManagerImpl} {live : Multiset (Handle Int)}
    {tokenIds : List Token} {blocks bs : List Block} {k : Nat} (hm : Xllm.Sound m live)
    (h : Xllm.Sound.Cached m live tokenIds blocks k bs m') :
    ∃ stored : List Block, stored ⊆ m.prefixCache.stamped tokenIds blocks k ∧
      m'.prefixCache.entries.Perm (stored ++ m.prefixCache.entries) := by
  have hentries := h.entries_eq
  split at hentries
  · refine ⟨Lru.walkStored Block.hashValue (m.prefixCache.stamped tokenIds blocks k)
      ⟨m.prefixCache.entries, []⟩, (Lru.walkStored_sublist _ _).subset, ?_⟩
    rw [hentries]
    exact hm.wf.walkStore_perm _
  · refine ⟨[], nil_subset _, ?_⟩
    rw [hentries]
    exact List.Perm.refl _

/-- Only blocks that hold their tokens are put into the cache when no position of a full
block is pending. -/
theorem cache (h : p.Stocked options content pending rest hostRest)
    (hready : ∀ q ∈ pending, p.sequence.kvState.numOwnedSharedBlocks * options.blockSize ≤ q →
      p.sequence.kvState.kvCacheTokensNum / options.blockSize * options.blockSize ≤ q) :
    IfOk p.cache (fun q =>
      q.Stocked options content pending rest hostRest ∧ p.Spares rest q rest) := by
  refine (h.toBeamless.cache.and (cache_ensures h.sound)).mono
    (fun _ _ => trivial) fun q hq => ?_
  obtain ⟨hbeamless, bs, m, hcached, rfl, hcore, -⟩ := hq
  have hpos : 0 < options.blockSize := by
    rw [← h.options_eq]
    exact h.sound.device.blockSize_pos
  have hsize : p.rank.blockManager.prefixCache.blockSize = options.blockSize := by
    rw [h.sound.device.blockSize_eq, h.options_eq]
  set n := p.rank.blockManager.prefixCache.insertCount p.sequence.computedTokens
    p.sequence.kvState.blocks with hn
  -- the blocks that may be stored are computed
  have hcomputed : ∀ (j : Nat) a, p.sequence.kvState.numOwnedSharedBlocks ≤ j → j < n →
      p.sequence.kvState.blocks[j]? = some a →
      (j + 1) * options.blockSize ≤ p.sequence.computedTokens.length ∧
        p.sequence.Computed content options.blockSize pending j a := by
    intro j a hj hlt ha
    have hdiv : j + 1 ≤ p.sequence.computedTokens.length / options.blockSize := by
      rw [hn, PrefixCache.insertCount, hsize] at hlt
      omega
    have hlen := (Nat.le_div_iff_mul_le hpos).mp hdiv
    have hkv : p.sequence.computedTokens.length ≤ p.sequence.kvState.kvCacheTokensNum := by
      rw [Sequence.computedTokens, length_take]
      exact Nat.min_le_left _ _
    refine ⟨hlen, h.tracked.computed hj ha (hlen.trans hkv) fun q hq hle => ?_⟩
    have hfull := hready q hq ((Nat.mul_le_mul_right _ hj).trans hle)
    refine Nat.le_trans (Nat.mul_le_mul_right _ ?_) hfull
    exact hdiv.trans (Nat.div_le_div_right hkv)
  obtain ⟨stored, hstored, hperm⟩ := exists_stored h.sound.device hcached
  have hcount : ∀ id, m.cachedIds.count id =
      (stored.map Block.id).count id + p.rank.blockManager.cachedIds.count id := by
    intro id
    have hsame := (hperm.map Block.id).count_eq id
    rw [map_append, count_append] at hsame
    exact hsame
  have hids : bs.map Block.id = p.sequence.kvState.blocks.map Block.id := by
    have hfst := congrArg (List.map Prod.fst) hcore
    rwa [List.map_map, List.map_map] at hfst
  have hholders : ∀ id, ((p.setManager m).setKvState
      { p.sequence.kvState with blocks := bs }).holders rest id =
        (stored.map Block.id).count id + p.holders rest id := by
    intro id
    rw [holders, holders, setKvState_kvState, hids]
    change m.cachedIds.count id + _ + _ = _
    rw [hcount]
    omega
  -- a block that is stored has its only place among the first ones of the sequence
  have hnone : ∀ id, (∀ (j : Nat) a, j < n → p.sequence.kvState.blocks[j]? = some a → a.id ≠ id) →
      (stored.map Block.id).count id = 0 := by
    intro id hother
    rw [List.count_eq_zero]
    intro hmem
    obtain ⟨b, hb, rfl⟩ := List.mem_map.mp hmem
    obtain ⟨j, a, -, hlt, ha, hid, -⟩ := exists_index_of_mem_stamped (hstored hb)
    exact hother j a hlt ha hid
  refine ⟨⟨hbeamless, fun b hb => ?_, ?_⟩, fun id hid hone => ?_⟩
  · rcases List.mem_append.mp (hperm.mem_iff.mp hb) with hb | hb
    · obtain ⟨j, a, hj, hlt, ha, hid, htokens⟩ := exists_index_of_mem_stamped (hstored hb)
      obtain ⟨hlen, hc⟩ := hcomputed j a hj hlt ha
      rw [hsize] at htokens
      refine ⟨j * options.blockSize, ?_, fun r hr => ?_⟩
      · rw [htokens, length_take, Nat.min_eq_left hlen, Nat.succ_mul]
      · obtain ⟨token, hcontent, -, hget⟩ := h.tracked.exists_token hj hc hr
        have hkv := (hc r hr).1
        rw [← hid, hcontent, htokens, getElem?_take_of_lt (by rw [Nat.succ_mul]; omega),
          Sequence.computedTokens, getElem?_take_of_lt hkv, hget]
        exact ⟨rfl, rfl⟩
    · exact h.produced b hb
  · refine ⟨fun j b hj hb => ?_, fun q b hq hlt hnot hb => ?_, fun q hq hlt hlate => ?_⟩
    · obtain ⟨a, ha, hid⟩ := getElem?_of_core hcore hb
      by_cases hfirst : j < n
      · refine .inr fun r hr => ?_
        rw [← hid]
        exact (hcomputed j a hj hfirst ha).2 r hr
      · refine (h.tracked.own j a hj ha).imp (fun hone => ?_) fun hc r hr => ?_
        · rw [Alone, hholders, ← hid, hnone a.id, Nat.zero_add]
          · exact hone
          · intro i c hi hc hcid
            have hle : (p.sequence.kvState.blocks.map Block.id).count a.id ≤ 1 := by
              rw [Alone, holders] at hone
              omega
            have heq := index_eq_of_count hc ha hcid hle
            omega
        · rw [← hid]
          exact hc r hr
    · obtain ⟨a, ha, hid⟩ := getElem?_of_core hcore hb
      rw [← hid]
      exact h.tracked.holds q a hq hlt hnot ha
    · refine h.tracked.late q hq hlt (hlate.imp_right fun hblock => ?_)
      have hlen := congrArg List.length hids
      rw [length_map, length_map] at hlen
      rw [List.getElem?_eq_none_iff] at hblock ⊢
      rw [← hlen]
      exact hblock
  · rw [Alone, hholders, hnone id, Nat.zero_add]
    · exact hone
    · rintro j a - ha rfl
      have hpos := count_pos_of_mem (mem_of_getElem? ha)
      rw [Alone, holders] at hone
      omega

theorem deallocate (h : p.Stocked options content pending rest hostRest)
    (hready : ∀ q ∈ pending, p.sequence.kvState.numOwnedSharedBlocks * options.blockSize ≤ q →
      p.sequence.kvState.kvCacheTokensNum / options.blockSize * options.blockSize ≤ q) :
    IfOk p.deallocate (fun q =>
      q.Stocked options content pending rest hostRest ∧ p.Spares rest q rest) := by
  refine deallocate_rule (h.cache hready) fun q hq => ?_
  exact (hq.1.drop true).mono_post fun r hr => ⟨hr.1, hq.2.trans hr.2⟩

theorem allocate (h : p.Stocked options content pending rest hostRest) (numTokens : Nat) :
    IfOk (p.allocate numTokens) (fun r =>
      Stocked options content pending rest hostRest r.2 ∧ p.Spares rest r.2 rest) := by
  refine allocate_rule
    (I := fun q => q.Stocked options content pending rest hostRest ∧ p.Spares rest q rest)
    (J := fun q => q.Stocked options content pending rest hostRest ∧ p.Spares rest q rest) ?_ ?_ ?_
  · refine h.allocateEmbeddingId.mono_post fun r hr => ?_
    split <;> exact ⟨hr.1, hr.2.1⟩
  · intro q hq
    split
    · exact hq.1.allocateShared.mono_post fun r hr => ⟨hr.1, hq.2.trans hr.2⟩
    · exact hq
  · intro q hq
    exact (hq.1.allocateMore numTokens _ _).mono_post fun r hr => ⟨hr.1, hq.2.trans hr.2⟩

omit [XXH3] in
theorem destroy (h : p.Stocked options content pending rest hostRest) : IfOk p.destroy (fun q =>
      q.Stocked options content pending rest hostRest ∧ p.Spares rest q rest) := by
  refine (h.toBeamless.destroy.and (destroy_ensures h.sound)).mono
    (fun _ _ => trivial) fun q hq => ?_
  obtain ⟨⟨hbeamless, -⟩, -, device, host, m, rfl⟩ := hq
  refine ⟨⟨hbeamless, h.produced, .of_nil rfl rfl⟩, spares_of_holders_le fun id _ => ?_⟩
  exact Nat.add_le_add_right (Nat.add_le_add_left (Nat.zero_le _) _) _

theorem trySharedOf (h : p.Stocked options content pending rest hostRest)
    (hblocks : p.sequence.kvState.blocks = [])
    (hshared : p.sequence.kvState.numOwnedSharedBlocks = 0)
    (hkv : p.sequence.kvState.kvCacheTokensNum = 0) : IfOk p.tryShared (fun r =>
      r.2.Stocked options content pending (handles r.1 + rest) hostRest ∧
        p.Spares rest r.2 (handles r.1 + rest) ∧ r.2.sequence.kvState.blocks = r.1 ∧
        r.2.sequence.kvState.kvCacheTokensNum = 0) := by
  refine (tryShared_ensures h.sound).mono (fun _ _ => trivial) fun r hr => ?_
  obtain ⟨m, heap, hs, -, hstate, hsound⟩ := hr
  have hgood := h.toGood.tryShared_of hs hstate hsound
  have hproper := proper_of_shared hs h.toGood
  rw [hstate] at hgood ⊢
  have hkvState : p.withTryShared r.1 = { p.sequence.kvState with
      blocks := r.1
      numOwnedSharedBlocks := r.1.length
      kvCacheTokensNum := 0 } := by
    rw [withTryShared, hblocks, hshared, nil_append, Nat.zero_add, ← hkv]
  rw [hkvState] at hgood ⊢
  have hcached : ∀ id, m.cachedIds.count id = p.rank.blockManager.cachedIds.count id :=
    (hs.entries_perm.map Block.id).count_eq
  refine ⟨⟨⟨hgood, h.src_nil, fun hoff => ?_⟩, ?_, ?_⟩, fun id hid hone => ?_, rfl, rfl⟩
  · have hperm := hs.entries_perm
    rw [h.entries_nil hoff] at hperm
    exact hperm.eq_nil
  · exact fun b hb => h.produced b (hs.entries_perm.mem_iff.mp hb)
  · exact .of_shared (Nat.le_refl _) (Nat.zero_le _)
  · rw [Alone, holders] at hone
    have hnone : (r.1.map Block.id).count id = 0 := by
      rw [List.count_eq_zero]
      intro hmem
      obtain ⟨b, hb, rfl⟩ := List.mem_map.mp hmem
      rcases mem_of_shared hs hb with hb | hb
      · have hpos : 0 < p.rank.blockManager.cachedIds.count b.id := count_pos_of_mem hb
        omega
      · rw [hblocks, take_nil] at hb
        cases hb
    rw [Alone, holders, setKvState_kvState, hnone, Multiset.map_add, count_add,
      map_id_handles fun b hb => (hproper b hb).1, coe_count]
    change m.cachedIds.count id + 0 + _ = 1
    rw [hcached]
    omega

omit [XXH3] in
theorem alone_of_add {more : Multiset (Handle Int)} {id : Int} (h : p.Alone (more + rest) id)
    (hheld : 0 <
      (p.sequence.kvState.blocks.map Block.id).count id + (rest.map Handle.id).count id) :
    p.Alone rest id := by
  rw [Alone, holders, Multiset.map_add, count_add] at h
  rw [Alone, holders]
  omega

omit [XXH3] in
/-- The second part of `try_allocate`: all that it counts behind the shared blocks is
pending. -/
theorem tryMore {bs : List Block}
    (h : p.Stocked options content pending (handles bs + rest) hostRest)
    (hblocks : p.sequence.kvState.blocks = bs) (hkv : p.sequence.kvState.kvCacheTokensNum = 0)
    (needsId : Bool) : IfOk (p.tryMore bs needsId) (fun r =>
      (∀ id, 0 < (rest.map Handle.id).count id → p.Alone (handles bs + rest) id →
        r.2.Alone rest id) ∧
      (∀ b ∈ r.2.rank.blockManager.prefixCache.entries, Produced content options.blockSize b) ∧
      ∀ pending', (∀ q, r.2.sequence.kvState.numOwnedSharedBlocks * options.blockSize ≤ q →
        q < r.2.sequence.kvState.kvCacheTokensNum → q ∈ pending') →
        r.2.sequence.Tracked content options.blockSize (r.2.Alone rest) pending') := by
  refine (tryMore_ensures h.sound _).mono (fun _ _ => trivial) fun r hr => ?_
  obtain ⟨ok, q⟩ := r
  obtain ⟨htried, -⟩ := hr
  cases htried with
  | grown blocks m heap hm hlen hroom =>
      have hsound : ((p.setManager m).setKvState (p.sequence.kvState.addKvBlocks blocks)).Sound
          (handles bs + rest) hostRest := by
        refine ⟨?_, h.sound.host⟩
        have hsame : (p.sequence.kvState.addKvBlocks blocks).handles =
            handles blocks + p.sequence.kvState.handles := by
          simp only [KVCacheState.addKvBlocks, KVCacheState.handles, handles_append]
          abel
        simp only [setKvState_kvState]
        rw [hsame, add_assoc]
        exact hm.sound
      obtain ⟨hgrown, hspares⟩ := h.grow hm hsound
      refine ⟨fun id hid hone => ?_, hgrown.produced, fun pending' hpending => ?_⟩
      · have hrest : 0 < ((handles bs + rest).map Handle.id).count id := by
          rw [Multiset.map_add, count_add]
          omega
        exact alone_of_add (hspares id hrest hone) (by omega)
      · refine ⟨fun j b hj hb => ?_, fun q b hq hlt hnot => ?_, fun q hq hlt _ => ?_⟩
        · rcases hgrown.tracked.own j b hj hb with hone | hc
          · refine .inl (alone_of_add hone ?_)
            exact Nat.add_pos_left (count_pos_of_mem (mem_of_getElem? hb)) _
          · have hpos : 0 < options.blockSize := by
              rw [← h.options_eq]
              exact h.sound.device.blockSize_pos
            have hcount := (hc 0 hpos).1
            change _ < p.sequence.kvState.kvCacheTokensNum at hcount
            omega
        · exact absurd (hpending q hq hlt) hnot
        · exact hpending q hq hlt
  | failed m used device host em hm hshort hused hid =>
      have hentries : m.prefixCache.entries.Sublist p.rank.blockManager.prefixCache.entries := by
        obtain ⟨k, heq, -⟩ := hm.swept
        rw [heq]
        exact Lru.sweep_kept_sublist k _
      have hnil : (if bs = [] then p.sequence else p.sequence.released).kvState.blocks = [] ∧
          (if bs = [] then p.sequence else p.sequence.released).kvState.kvCacheTokensNum = 0 := by
        split
        · rename_i hnil
          exact ⟨hblocks.trans hnil, hkv⟩
        · exact ⟨rfl, rfl⟩
      refine ⟨fun id hid hone => ?_, fun b hb => h.produced b (hentries.subset hb),
        fun pending' _ => .of_nil hnil.1 hnil.2⟩
      have hcount : m.cachedIds.count id ≤ p.rank.blockManager.cachedIds.count id :=
        (hentries.map Block.id).count_le id
      rw [Alone, holders, Multiset.map_add, count_add] at hone
      change m.cachedIds.count id +
        ((if bs = [] then p.sequence else p.sequence.released).kvState.blocks.map
          Block.id).count id +
        _ = 1
      rw [hnil.1, map_nil, count_nil]
      omega

theorem tryAllocate (h : p.Stocked options content pending rest hostRest)
    (hblocks : p.sequence.kvState.blocks = [])
    (hshared : p.sequence.kvState.numOwnedSharedBlocks = 0)
    (hkv : p.sequence.kvState.kvCacheTokensNum = 0) :
    IfOk p.tryAllocate (fun r => p.Spares rest r.2 rest ∧
      ∀ pending', (∀ q, r.2.sequence.kvState.numOwnedSharedBlocks * options.blockSize ≤ q →
        q < r.2.sequence.kvState.kvCacheTokensNum → q ∈ pending') →
        Stocked options content pending' rest hostRest r.2) := by
  have hstock : IfOk p.tryAllocate (fun r => p.Spares rest r.2 rest ∧
      (∀ b ∈ r.2.rank.blockManager.prefixCache.entries, Produced content options.blockSize b) ∧
      ∀ pending', (∀ q, r.2.sequence.kvState.numOwnedSharedBlocks * options.blockSize ≤ q →
        q < r.2.sequence.kvState.kvCacheTokensNum → q ∈ pending') →
        r.2.sequence.Tracked content options.blockSize (r.2.Alone rest) pending') := by
    refine tryAllocate_rule
      (I := fun q => q.Stocked options content pending rest hostRest ∧ p.Spares rest q rest ∧
        q.sequence.kvState = p.sequence.kvState)
      (J := fun bs q => q.Stocked options content pending (handles bs + rest) hostRest ∧
        p.Spares rest q (handles bs + rest) ∧ q.sequence.kvState.blocks = bs ∧
        q.sequence.kvState.kvCacheTokensNum = 0) ?_ ?_ ?_
    · refine h.allocateEmbeddingId.mono_post fun r hr => ?_
      split
      · exact hr
      · refine ⟨hr.2.1, hr.1.produced, fun pending' _ => .of_nil ?_ ?_⟩
        · rw [hr.2.2, hblocks]
        · rw [hr.2.2, hkv]
    · rintro q ⟨hq, hspares, hsame⟩
      refine (hq.trySharedOf ?_ ?_ ?_).mono_post fun r hr =>
        ⟨hr.1, fun id hid hone => hr.2.1 id hid (hspares id hid hone), hr.2.2⟩
      · rw [hsame, hblocks]
      · rw [hsame, hshared]
      · rw [hsame, hkv]
    · rintro bs q ⟨hq, hspares, hqblocks, hqkv⟩
      refine (hq.tryMore hqblocks hqkv _).mono_post fun r hr => ⟨?_, hr.2⟩
      exact fun id hid hone => hr.1 id hid (hspares id hid hone)
  refine ((h.toBeamless.tryAllocate hblocks).and hstock).mono (fun _ _ => trivial) fun r hr => ?_
  obtain ⟨⟨hbeamless, -⟩, hspares, hproduced, htracked⟩ := hr
  exact ⟨hspares, fun pending' hpending => ⟨hbeamless, hproduced, htracked pending' hpending⟩⟩

end

end Stocked

end Serving

end Xllm
