import Mathlib.Data.List.Basic
import Mathlib.Data.List.Induction
import Mathlib.Data.List.TakeDrop
import Mathlib.Data.Set.Function
import Mathlib.Tactic.Ring

/-!
# Chained hash keys of token blocks

`XXH3_128bits_withSeed` is a third-party function; the class `XXH3` holds it at
the configured seed, as a function of the hashed bytes. What the repository adds
is modelled here: a block of tokens is hashed alone when it is the first of its
sequence, and together with the key of the block before it otherwise.

`Check` lists the `CHECK` and `LOG(FATAL)` statements of the modelled code.
Reaching one of them ends the process, so a modelled function returns it as an
error and has no state afterwards.
-/

namespace Xllm

/-- The assertions of the modelled code; each names the condition that failed. -/
inductive Check where
  /-- `CHECK_GT(sizeof(key), data_len)` of `xxh3_128bits_hash`. -/
  | keyBufferTooSmall
  /-- `CHECK(prev_count < free_blocks_.size())` of `BlockManagerImpl::free`. -/
  | freeBlocksOverflow
  /-- `CHECK_GT(options.num_blocks(), 0)`. -/
  | noBlocksToAllocate
  /-- `CHECK_GT(options.block_size(), 0)`. -/
  | blockSizeNotPositive
  /-- `CHECK_EQ(padding_block_.id(), 0)`. -/
  | paddingBlockNotZero
  /-- `CHECK(num_blocks <= num_free_blocks_)` of `BlockManagerImpl::allocate`. -/
  | notEnoughBlocks
  /-- `CHECK(num_free_blocks_ > 0)` of the one-block `allocate`. -/
  | noMoreBlocks
  /-- `LOG(FATAL)` of `BlockManagerImpl::deallocate` when `num_used_blocks_` is zero. -/
  | blockAlreadyReleased
  /-- `CHECK_GE(n_blocks, existed_shared_blocks_num)` of `PrefixCache::insert`. -/
  | sharedBeyondCached
  /-- `CHECK(kv_cache_tokens_num_ + num <= current_max_tokens_capacity())`. -/
  | kvTokensOverCapacity
  /-- `CHECK(num_owned_shared_blocks_ + num <= num_kv_blocks())`. -/
  | sharedOverBlocks
  /-- `CHECK_GE(owned_blocks->size(), num_matched_shared_blocks)`. -/
  | matchedOverOwned
  /-- `CHECK_GT(block_size, 0)` of `add_shared_kv_blocks`. -/
  | zeroBlockSize
  /-- `CHECK_LT(num_shared_tokens, current_total_num_tokens)`. -/
  | sharedTokensNotBelowTotal
  /-- `CHECK_LE(size, data.size())` and `CHECK(start <= end && end <= size_)` of `Slice`. -/
  | sliceOutOfRange
  /-- `CHECK(!blocks_.empty())` of `kv_cache_slots`. -/
  | noCacheBlocks
  /-- An access outside a vector, which the source does not check. -/
  | outOfBounds
  /-- `CHECK`s of `EmbeddingManager` on its own free list. -/
  | embeddingIds
  /-- `CHECK`s of the constructor of `Sequence`. -/
  | newSequence
  /-- `CHECK`s of `Sequence::append_token`. -/
  | appendToken
  /-- `CHECK_GE(current_max_tokens_capacity(), seq_len)` and `CHECK_GT(q_seq_len, 0)`. -/
  | batchInput
  /-- `CHECK(count >= 0)` of `handle_sampling_parameters`. -/
  | negativeTokenCount
  /-- A division by zero, which the source does not check. -/
  | divisionByZero
  /-- `CHECK`s of `BlockCapacityGuard`. -/
  | capacityGuard
  /-- `CHECK_LT(num_tokens_, tokens_.size())` of `append_token`. -/
  | tokenCapacity
  /-- `CHECK`s of `StoppingChecker::check`. -/
  | stoppingCheck
  /-- `CHECK(enable_schedule_overlap)` of `update_last_step_token`. -/
  | overlapDisabled
  /-- `CHECK`s and `LOG(FATAL)` statements of the schedulers. -/
  | scheduling
  /-- `LOG(FATAL)` when a waiting request is neither scheduled nor refused for a reason. -/
  | unexpectedWaiting
  /-- A loop that has not ended within the given number of rounds. -/
  | roundsExceeded
  /-- `CHECK(num_blocks_ == cached_blocks_.size())` of `PrefixCache::num_blocks`. -/
  | blockNum
  /-- An access through a null pointer or to a deleted node, which the source does not check. -/
  | danglingNode
  deriving DecidableEq

/-- Token ids are `int32_t` values. -/
abbrev Token := Int32

/-- `XXH3Key`: the sixteen bytes of a 128-bit hash value. -/
structure XXH3Key where
  data : Vector UInt8 16
  deriving DecidableEq

instance : Inhabited XXH3Key := ⟨⟨Vector.replicate 16 0⟩⟩

open List

/-- `XXH3_128bits_withSeed` at the configured seed, on the bytes it is given. -/
class XXH3 where
  digest : List UInt8 → XXH3Key

/-- A stand-in for the digest in closed examples: the last sixteen bytes. -/
@[reducible] def XXH3.lastBytes : XXH3 where
  digest bytes := ⟨⟨((List.replicate 16 0 ++ bytes).drop bytes.length).toArray, by
    rw [size_toArray, length_drop, length_append, length_replicate]
    omega⟩⟩

/-- The little-endian bytes of one token, as `reinterpret_cast` exposes them. -/
def tokenBytes (t : Token) : List UInt8 :=
  let u := t.toUInt32
  [u.toUInt8, (u >>> 8).toUInt8, (u >>> 16).toUInt8, (u >>> 24).toUInt8]

/-- The digest that `xxh3_128bits_hash` writes for one block of tokens. -/
def hashKey [XXH3] (preHash : Option XXH3Key) (tokens : List Token) : XXH3Key :=
  match preHash with
  | none => XXH3.digest (tokens.flatMap tokenBytes)
  | some key => XXH3.digest (key.data.toList ++ tokens.flatMap tokenBytes)

def hashValueLen : Nat := 16

/-- The chained form copies the previous key and the tokens into `key[1024]`. -/
def KeyFits (numTokens : Nat) : Prop := 4 * numTokens + hashValueLen < 1024

instance (numTokens : Nat) : Decidable (KeyFits numTokens) :=
  inferInstanceAs (Decidable (_ < _))

/-- `xxh3_128bits_hash`: the buffer check guards only the chained form. -/
def xxh3128bitsHash [XXH3] (preHash : Option XXH3Key) (tokens : List Token) :
    Except Check XXH3Key :=
  match preHash with
  | none => .ok (hashKey none tokens)
  | some key =>
      if KeyFits tokens.length then .ok (hashKey (some key) tokens)
      else .error .keyBufferTooSmall

/-- `token_ids.slice(i, i + block_size)` for every complete block of the list. -/
def tokenBlocks (blockSize : Nat) (tokens : List Token) : List (List Token) :=
  (List.range (tokens.length / blockSize)).map fun i =>
    (tokens.drop (i * blockSize)).take blockSize

@[simp] theorem tokenBlocks_length (blockSize : Nat) (tokens : List Token) :
    (tokenBlocks blockSize tokens).length = tokens.length / blockSize := by
  simp [tokenBlocks]

theorem length_of_mem_tokenBlocks {blockSize : Nat} {tokens block : List Token}
    (h : block ∈ tokenBlocks blockSize tokens) : block.length = blockSize := by
  simp only [tokenBlocks, mem_map, mem_range] at h
  obtain ⟨i, hi, rfl⟩ := h
  have hle : (i + 1) * blockSize ≤ tokens.length :=
    Nat.le_trans (Nat.mul_le_mul_right _ hi) (Nat.div_mul_le_self _ _)
  rw [length_take, length_drop]
  have hmul : (i + 1) * blockSize = i * blockSize + blockSize := by ring
  omega

theorem tokenBlocks_take {blockSize n : Nat} {tokens : List Token} (hpos : 0 < blockSize)
    (hn : n ≤ tokens.length / blockSize) :
    tokenBlocks blockSize (tokens.take (n * blockSize)) =
      (tokenBlocks blockSize tokens).take n := by
  have hle : n * blockSize ≤ tokens.length := (Nat.le_div_iff_mul_le hpos).mp hn
  have hlen : (tokens.take (n * blockSize)).length / blockSize = n := by
    rw [length_take, Nat.min_eq_left hle, Nat.mul_div_cancel _ hpos]
  apply ext_getElem
  · rw [tokenBlocks_length, hlen, length_take, tokenBlocks_length, Nat.min_eq_left hn]
  · intro i h₁ h₂
    have hi : i < n := by rwa [tokenBlocks_length, hlen] at h₁
    have hblock : (i + 1) * blockSize ≤ n * blockSize := Nat.mul_le_mul_right _ hi
    have hmul : (i + 1) * blockSize = i * blockSize + blockSize := by ring
    simp only [tokenBlocks, getElem_map, getElem_range, getElem_take]
    rw [drop_take, take_take]
    congr 1
    omega

@[simp] theorem flatten_tokenBlocks {blockSize : Nat} {tokens : List Token}
    (h : tokens.length / blockSize * blockSize = tokens.length) :
    (tokenBlocks blockSize tokens).flatten = tokens := by
  have aux : ∀ n, n * blockSize ≤ tokens.length →
      ((List.range n).map fun i => (tokens.drop (i * blockSize)).take blockSize).flatten =
        tokens.take (n * blockSize) := by
    intro n
    induction n with
    | zero => simp
    | succ n ih =>
        intro hle
        have hmul : (n + 1) * blockSize = n * blockSize + blockSize := by ring
        rw [range_succ, map_append, flatten_append, ih (by omega), hmul,
          take_add]
        simp
  rw [tokenBlocks, aux _ (Nat.div_mul_le_self _ _), h, take_length]

section Chain

variable [XXH3]

def chainKeys (preHash : Option XXH3Key) : List (List Token) → List XXH3Key
  | [] => []
  | block :: blocks =>
      let key := hashKey preHash block
      key :: chainKeys (some key) blocks

@[simp] theorem chainKeys_nil (preHash : Option XXH3Key) : chainKeys preHash [] = [] := rfl

@[simp] theorem chainKeys_cons (preHash : Option XXH3Key) (block : List Token)
    (blocks : List (List Token)) :
    chainKeys preHash (block :: blocks) =
      hashKey preHash block :: chainKeys (some (hashKey preHash block)) blocks := rfl

@[simp] theorem chainKeys_length (preHash : Option XXH3Key) (blocks : List (List Token)) :
    (chainKeys preHash blocks).length = blocks.length := by
  induction blocks generalizing preHash with
  | nil => rfl
  | cons block blocks ih => simp [ih]

@[simp] theorem chainKeys_take (preHash : Option XXH3Key) (blocks : List (List Token)) (n : Nat) :
    chainKeys preHash (blocks.take n) = (chainKeys preHash blocks).take n := by
  induction blocks generalizing preHash n with
  | nil => simp
  | cons block blocks ih =>
      cases n with
      | zero => simp
      | succ n => simp [ih]

theorem chainKeys_drop (preHash : Option XXH3Key) (blocks : List (List Token)) (n : Nat)
    (key : XXH3Key) (h : (chainKeys preHash blocks)[n]? = some key) :
    chainKeys (some key) (blocks.drop (n + 1)) = (chainKeys preHash blocks).drop (n + 1) := by
  induction blocks generalizing preHash n with
  | nil => simp at h
  | cons block blocks ih =>
      cases n with
      | zero =>
          have hkey : hashKey preHash block = key := by simpa using h
          simp [hkey]
      | succ n => simpa using ih _ n (by simpa using h)

def prefixKey (blockSize : Nat) (tokens : List Token) : Option XXH3Key :=
  (chainKeys none (tokenBlocks blockSize tokens)).getLast?

theorem prefixKey_take {blockSize i : Nat} {tokens : List Token} (hpos : 0 < blockSize)
    (hi : i < tokens.length / blockSize) :
    prefixKey blockSize (tokens.take ((i + 1) * blockSize)) =
      (chainKeys none (tokenBlocks blockSize tokens))[i]? := by
  rw [prefixKey, tokenBlocks_take hpos hi, chainKeys_take, getLast?_take]
  simp [hi]

def chainPairs (preHash : Option XXH3Key) : List (List Token) →
    List (Option XXH3Key × List Token)
  | [] => []
  | block :: blocks => (preHash, block) :: chainPairs (some (hashKey preHash block)) blocks

def prefixPairs (blockSize : Nat) (tokens : List Token) : List (Option XXH3Key × List Token) :=
  chainPairs none (tokenBlocks blockSize tokens)

def CollisionFree (S : Set (Option XXH3Key × List Token)) : Prop :=
  Set.InjOn (fun p => hashKey p.1 p.2) S

@[simp] theorem chainPairs_take (preHash : Option XXH3Key) (blocks : List (List Token)) (n : Nat) :
    chainPairs preHash (blocks.take n) = (chainPairs preHash blocks).take n := by
  induction blocks generalizing preHash n with
  | nil => simp [chainPairs]
  | cons block blocks ih =>
      cases n with
      | zero => simp [chainPairs]
      | succ n => simp [chainPairs, ih]

theorem getLast?_chainKeys_concat (preHash : Option XXH3Key) (blocks : List (List Token))
    (block : List Token) :
    (chainKeys preHash (blocks ++ [block])).getLast? =
      some (hashKey ((chainKeys preHash blocks).getLast?.or preHash) block) := by
  induction blocks generalizing preHash with
  | nil => simp
  | cons first blocks ih =>
      have hne : chainKeys (some (hashKey preHash first)) (blocks ++ [block]) ≠ [] := by
        rw [← length_pos_iff]
        simp
      rw [cons_append, chainKeys_cons, getLast?_cons_of_ne_nil hne, ih, chainKeys_cons]
      cases hrest : chainKeys (some (hashKey preHash first)) blocks with
      | nil => simp
      | cons key keys => simp [getLast?_cons]

theorem chainPairs_concat (preHash : Option XXH3Key) (blocks : List (List Token))
    (block : List Token) :
    chainPairs preHash (blocks ++ [block]) = chainPairs preHash blocks ++
      [((chainKeys preHash blocks).getLast?.or preHash, block)] := by
  induction blocks generalizing preHash with
  | nil => simp [chainPairs]
  | cons first blocks ih =>
      rw [cons_append, chainPairs, ih, chainPairs, chainKeys_cons]
      cases hrest : chainKeys (some (hashKey preHash first)) blocks with
      | nil => simp
      | cons key keys => simp [getLast?_cons]

/-- Without collisions chains with the same last key are the same. -/
theorem chain_injective {S : Set (Option XXH3Key × List Token)} (hfree : CollisionFree S)
    {xs ys : List (List Token)} (hx : ∀ p ∈ chainPairs none xs, p ∈ S)
    (hy : ∀ p ∈ chainPairs none ys, p ∈ S)
    (h : (chainKeys none xs).getLast? = (chainKeys none ys).getLast?) : xs = ys := by
  induction xs using List.reverseRecOn generalizing ys with
  | nil =>
      have hempty : chainKeys none ys = [] := List.getLast?_eq_none_iff.mp (by simpa using h.symm)
      have hlen := congrArg List.length hempty
      rw [chainKeys_length] at hlen
      exact (List.length_eq_zero_iff.mp hlen).symm
  | append_singleton xs x ih =>
      cases ys using List.reverseRecOn with
      | nil => simp [getLast?_chainKeys_concat] at h
      | append_singleton ys y =>
          rw [getLast?_chainKeys_concat, getLast?_chainKeys_concat, Option.or_none,
            Option.or_none] at h
          simp only [chainPairs_concat, Option.or_none, mem_append, mem_singleton] at hx hy
          have hpair := hfree (hx _ (.inr rfl)) (hy _ (.inr rfl)) (Option.some.inj h)
          obtain ⟨hkeys, rfl⟩ := Prod.mk.inj hpair
          rw [ih (fun p hp => hx p (.inl hp)) (fun p hp => hy p (.inl hp)) hkeys]

/-- Without collisions the key of a prefix determines it. -/
theorem prefixKey_injective {S : Set (Option XXH3Key × List Token)} (hfree : CollisionFree S)
    {blockSize : Nat} {xs ys : List Token}
    (hxlen : xs.length / blockSize * blockSize = xs.length)
    (hylen : ys.length / blockSize * blockSize = ys.length)
    (hx : ∀ p ∈ prefixPairs blockSize xs, p ∈ S) (hy : ∀ p ∈ prefixPairs blockSize ys, p ∈ S)
    (h : prefixKey blockSize xs = prefixKey blockSize ys) : xs = ys := by
  rw [← flatten_tokenBlocks hxlen, ← flatten_tokenBlocks hylen, chain_injective hfree hx hy h]

end Chain

end Xllm
