import Xllm.PrefixCache.Refine

/-!
# Resuming a match

`match` accepts blocks that an earlier match returned. It then starts from the hash
value inside the last of them instead of hashing their tokens again. `Leads` says
what makes this sound: the blocks are still cached, and their hash values are the
first keys of the tokens. A match that resumes from such blocks ends like a match
from scratch, with the same blocks or at the same check of the hash.
-/

namespace Xllm

open Contract List

namespace PrefixCache

section

variable {c : PrefixCache}

theorem Pass.touch_holds {w : Pass} {p : Nat} (h : w.finish.Wf) (hp : p ∈ w.finish.lruLst) :
    (w.touch p).finish.holds = w.finish.holds := by
  funext key
  have hmem : w.cache.node p ∈ w.finish.entries := mem_map_of_mem (f := w.cache.node) hp
  have hperm : (w.touch p).finish.entries.Perm w.finish.entries := by
    rw [← Pass.abs_all, ← Pass.abs_all, Pass.abs_touch h hp]
    rw [← Pass.abs_all] at hmem
    refine Lru.Walk.touch_perm ?_ hmem
    rw [Pass.abs_all]
    exact h.keyed
  exact Lru.lookup_perm (Pass.touch_wf h hp).keyed hperm key

variable [XXH3]

/-- How the loop of `match` ends, as far as it depends on the lookups. -/
def matchOutcome (lookup : XXH3Key → Option Block) :
    List (List Token) → Option XXH3Key → List Block → Except Check (List Block)
  | [], _, blocks => .ok blocks
  | tokens :: rest, preHash, blocks => do
      let key ← xxh3128bitsHash preHash tokens
      match lookup key with
      | some block => matchOutcome lookup rest (some key) (blocks ++ [block])
      | none => .ok blocks

theorem matchLoop_outcome {rest : List (List Token)} {w : Pass} (h : w.finish.Wf)
    (preHash : Option XXH3Key) (blocks : List Block) :
    (matchLoop rest preHash blocks w).map Prod.fst =
      matchOutcome w.finish.holds rest preHash blocks := by
  induction rest generalizing w preHash blocks with
  | nil => rfl
  | cons tokens rest ih =>
      rw [matchLoop, matchOutcome]
      cases hhash : xxh3128bitsHash preHash tokens with
      | error e => rfl
      | ok key =>
          have hfind := Pass.find_cases h key
          rw [Pass.abs_all] at hfind
          obtain ⟨hf, hl⟩ | ⟨p, hf, hp, hl⟩ := hfind
          · have hholds : w.finish.holds key = none := hl
            simp only [ok_bind, hf, hholds]
            rfl
          · have hholds : w.finish.holds key = some (w.cache.node p) := hl
            simp only [ok_bind, hf, hholds]
            rw [ih (w := { w.touch p with heap := w.heap.incRefCount (w.cache.node p) })
              (Pass.touch_wf h hp), ← Pass.touch_holds h hp]
            rfl

theorem matchTokens_outcome (h : c.Wf) (s : BlockHeap) (tokenIds : List Token)
    (existed : List Block) :
    (c.matchTokens s tokenIds existed).map Prod.fst =
      if roundDown tokenIds.length c.blockSize = 0 then .ok []
      else matchOutcome c.holds ((tokenBlocks c.blockSize tokenIds).drop existed.length)
        (existed.getLast?.map Block.hashValue) existed := by
  rw [matchTokens]
  split
  · rfl
  · have hfinish : Pass.finish { cache := c, heap := s.incAll existed } = c := by
      simp [Pass.finish]
    have hloop : (matchLoop ((tokenBlocks c.blockSize tokenIds).drop existed.length)
        (existed.getLast?.map Block.hashValue) existed
        { cache := c, heap := s.incAll existed }).map Prod.fst = matchOutcome _ _ _ _ :=
      matchLoop_outcome (hfinish.symm ▸ h) (existed.getLast?.map Block.hashValue) existed
    rw [hfinish] at hloop
    rw [← hloop]
    dsimp only
    cases matchLoop ((tokenBlocks c.blockSize tokenIds).drop existed.length)
      (existed.getLast?.map Block.hashValue) existed { cache := c, heap := s.incAll existed } <;>
      rfl

theorem matchOutcome_append {lookup : XXH3Key → Option Block} {n : Nat}
    {todo rest : List (List Token)} {preHash : Option XXH3Key} {blocks found : List Block}
    (hlen : ∀ tokens ∈ todo, tokens.length = n)
    (hfits : ∀ i < todo.length, i = 0 ∧ preHash = none ∨ KeyFits n)
    (hfound : List.Forall₂ (fun key b => lookup key = some b) (chainKeys preHash todo) found) :
    matchOutcome lookup (todo ++ rest) preHash blocks =
      matchOutcome lookup rest ((chainKeys preHash todo).getLast?.or preHash)
        (blocks ++ found) := by
  induction todo generalizing preHash blocks found with
  | nil =>
      cases hfound
      simp
  | cons tokens todo ih =>
      cases hfound with
      | @cons _ b _ found hhit hrest =>
          have hhash : xxh3128bitsHash preHash tokens = .ok (hashKey preHash tokens) := by
            cases preHash with
            | none => rfl
            | some pre =>
                have hkey : KeyFits tokens.length := by
                  rw [hlen tokens mem_cons_self]
                  simpa using hfits 0 (Nat.zero_lt_succ _)
                rw [xxh3128bitsHash, if_pos hkey]
          rw [cons_append, matchOutcome, hhash, ok_bind]
          simp only [hhit]
          rw [ih (fun t ht => hlen t (mem_cons_of_mem _ ht))
            (fun i hi => .inr (by simpa using hfits (i + 1) (Nat.succ_lt_succ hi))) hrest,
            chainKeys_cons, append_assoc]
          congr 1
          cases hkeys : chainKeys (some (hashKey preHash tokens)) todo with
          | nil => simp
          | cons key keys => simp [getLast?_cons]

theorem keyFits_of_outcome {lookup : XXH3Key → Option Block} {n : Nat}
    {todo : List (List Token)} {key : XXH3Key} {blocks out : List Block}
    (hlen : ∀ tokens ∈ todo, tokens.length = n)
    (hout : matchOutcome lookup todo (some key) blocks = .ok out)
    (hlonger : blocks.length < out.length) : KeyFits n := by
  cases todo with
  | nil =>
      cases hout
      exact absurd hlonger (Nat.lt_irrefl _)
  | cons tokens todo =>
      rw [matchOutcome, xxh3128bitsHash, hlen tokens mem_cons_self] at hout
      by_contra hno
      rw [if_neg hno] at hout
      cases hout

/-- The blocks are cached under the first keys of the tokens. -/
structure Leads (c : PrefixCache) (tokenIds : List Token) (existed : List Block) : Prop where
  length_le : existed.length ≤ tokenIds.length / c.blockSize
  hash_eq : existed.map Block.hashValue =
    (chainKeys none (tokenBlocks c.blockSize tokenIds)).take existed.length
  cached : ∀ b ∈ existed, b ∈ c.entries
  fits : 2 ≤ existed.length → KeyFits c.blockSize

theorem leads_nil (c : PrefixCache) (tokenIds : List Token) : Leads c tokenIds [] :=
  ⟨Nat.zero_le _, rfl, by simp, by simp⟩

variable {existed : List Block}

theorem Leads.extend {tokenIds tokenIds' : List Token} (hpos : 0 < c.blockSize)
    (h : Leads c tokenIds existed) (hpre : tokenIds <+: tokenIds') : Leads c tokenIds' existed := by
  have hle := Nat.div_le_div_right (c := c.blockSize) hpre.length_le
  refine ⟨h.length_le.trans hle, ?_, h.cached, h.fits⟩
  have hshort : existed.length * c.blockSize ≤ tokenIds.length :=
    (Nat.le_div_iff_mul_le hpos).mp h.length_le
  rw [h.hash_eq, ← chainKeys_take, ← chainKeys_take, ← tokenBlocks_take hpos h.length_le,
    ← tokenBlocks_take hpos (h.length_le.trans hle), List.prefix_iff_eq_take.mp hpre,
    take_take, Nat.min_eq_left hshort]

variable {tokenIds : List Token}

theorem Leads.of_mem {c' : PrefixCache} (h : Leads c tokenIds existed)
    (hsize : c'.blockSize = c.blockSize) (hmem : ∀ b ∈ existed, b ∈ c'.entries) :
    Leads c' tokenIds existed :=
  ⟨hsize ▸ h.length_le, by rw [hsize]; exact h.hash_eq, hmem, fun hlen => hsize ▸ h.fits hlen⟩

/-- A match resumed behind blocks that lead finds what a match from the start finds. -/
theorem matchTokens_resume (h : c.Wf)
    (hlead : Leads c tokenIds existed) (s s' : BlockHeap) :
    (c.matchTokens s tokenIds existed).map Prod.fst =
      (c.matchTokens s' tokenIds []).map Prod.fst := by
  rw [matchTokens_outcome h, matchTokens_outcome h]
  split
  · rfl
  · have hkeys : chainKeys none ((tokenBlocks c.blockSize tokenIds).take existed.length) =
        existed.map Block.hashValue := by
      rw [chainKeys_take, hlead.hash_eq]
    have hfound : List.Forall₂ (fun key b => c.holds key = some b)
        (existed.map Block.hashValue) existed := by
      rw [forall₂_map_left_iff, forall₂_same]
      exact fun b hb => (Lru.lookup_eq_some_iff h.keyed).mpr ⟨hlead.cached b hb, rfl⟩
    have hfits : ∀ i < ((tokenBlocks c.blockSize tokenIds).take existed.length).length,
        i = 0 ∧ (none : Option XXH3Key) = none ∨ KeyFits c.blockSize := by
      intro i hi
      rw [length_take] at hi
      by_cases hzero : i = 0
      · exact .inl ⟨hzero, rfl⟩
      · exact .inr (hlead.fits (by omega))
    have hpass : matchOutcome c.holds
        ((tokenBlocks c.blockSize tokenIds).take existed.length ++
          (tokenBlocks c.blockSize tokenIds).drop existed.length) none [] = _ :=
      matchOutcome_append (fun tokens ht => length_of_mem_tokenBlocks (mem_of_mem_take ht))
        hfits (hkeys ▸ hfound)
    rw [take_append_drop, hkeys, Option.or_none, getLast?_map] at hpass
    exact hpass.symm

theorem leads_of_match {out : List Block} (h : c.Wf) {s : BlockHeap}
    (hmatch : (c.matchTokens s tokenIds []).map Prod.fst = .ok out) : Leads c tokenIds out := by
  have hcontract := matchTokens_ensures h s tokenIds []
  have hkeys : c.matchKeys tokenIds [] = chainKeys none (tokenBlocks c.blockSize tokenIds) := by
    simp [matchKeys]
  have hout : out = c.matched tokenIds [] := by
    cases hrun : c.matchTokens s tokenIds [] with
    | error e =>
        rw [hrun] at hmatch
        cases hmatch
    | ok r =>
        rw [hrun] at hmatch hcontract
        cases hmatch
        exact hcontract.1
  have hhits : out = Lru.hits Block.hashValue c.entries
      (chainKeys none (tokenBlocks c.blockSize tokenIds)) := by
    rw [hout, matched]
    split
    · rename_i hzero
      rw [← hkeys, matchKeys_eq_nil hzero, Lru.hits]
    · rw [nil_append, hkeys]
  refine ⟨?_, ?_, ?_, fun htwo => ?_⟩
  · rw [hhits]
    refine (Lru.length_hits_le _ _).trans ?_
    rw [chainKeys_length, tokenBlocks_length]
  · rw [hhits]
    exact Lru.map_key_hits _ _ _
  · intro b hb
    rw [hhits] at hb
    exact Lru.mem_of_mem_hits hb
  · -- The second block was found by a chained hash, which checks its buffer.
    rw [matchTokens_outcome h] at hmatch
    split at hmatch
    · cases hmatch
      simp at htwo
    · have hlen : ∀ tokens ∈ tokenBlocks c.blockSize tokenIds, tokens.length = c.blockSize :=
        fun tokens ht => length_of_mem_tokenBlocks ht
      cases hblocks : tokenBlocks c.blockSize tokenIds with
      | nil =>
          simp only [hblocks, drop_nil, matchOutcome, Except.ok.injEq] at hmatch
          simp [← hmatch] at htwo
      | cons tokens rest =>
          rw [hblocks] at hlen
          simp only [hblocks, length_nil, drop_zero, getLast?_nil, Option.map_none,
            matchOutcome, xxh3128bitsHash, ok_bind] at hmatch
          split at hmatch
          · exact keyFits_of_outcome (fun t ht => hlen t (mem_cons_of_mem _ ht)) hmatch htwo
          · cases hmatch
            simp at htwo

end

end PrefixCache

end Xllm
