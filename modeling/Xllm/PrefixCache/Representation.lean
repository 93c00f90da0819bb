import Xllm.PrefixCache.Linked

/-!
# The representation of the prefix cache

Between two calls, the map, the LRU list and the memory describe one set of nodes
(`Consistent`). While a call runs, some of the nodes have moved to its `node_list`
(`Passing`): each is in one list only, and nothing else is allocated. `remove_node`
takes a node out of whichever list it is in, so a key that occurs twice in one call
only moves its node to the front of `node_list` again.

The cache itself never fails. What can end a run is an assertion of the code around
it (`Stops`).
-/

namespace Xllm

open Contract IntrusiveList List

namespace LinkedPrefixCache

/-- The map holds each of the nodes once, under the hash value of its block. -/
structure Indexed (hash : List UInt8 → UInt64) (c : LinkedPrefixCache) (nodes : List Addr) :
    Prop where
  nodup : nodes.Nodup
  numbered : ∀ a ∈ nodes, ∃ p < c.nextNode, a = .node p
  index : (c.cachedBlocks.map Prod.snd).Perm nodes
  keyed : ∀ e ∈ c.cachedBlocks, (c.memory.value e.2).map Block.hashValue = some e.1
  apart : c.cachedBlocks.Pairwise fun e e' => ¬sameKey hash e.1 e'.1
  numBlocks_eq : c.numBlocks = c.cachedBlocks.length

/-- The LRU list consists of the nodes of the map, and no other node is allocated. -/
structure Consistent (hash : List UInt8 → UInt64) (c : LinkedPrefixCache) (lru : List Addr) :
    Prop where
  linked : Linked c.memory .lruFront .lruBack lru
  indexed : Indexed hash c lru
  allocated : ∀ a, (c.memory.value a).isSome ↔ a ∈ spine .lruFront .lruBack lru

/-- The assertions of other code that a call can reach: the key buffer of the hash,
the argument of `insert`, and the free list of the block manager. -/
def Stops (e : Check) : Prop :=
  e = .keyBufferTooSmall ∨ e = .sharedBeyondCached ∨ e = .freeBlocksOverflow

variable {hash : List UInt8 → UInt64} {c : LinkedPrefixCache} {m : Memory Addr Block}
variable {nodes nodes' lru old recent xs ys : List Addr} {a : Addr} {p : Nat}

@[simp] theorem deref_some {α : Type} (x : α) : deref (some x) = .ok x := rfl

theorem Indexed.isNode (h : Indexed hash c nodes) (ha : a ∈ nodes) : ∃ p, a = .node p := by
  obtain ⟨p, -, rfl⟩ := h.numbered a ha
  exact ⟨p, rfl⟩

theorem Indexed.relink (h : Indexed hash c nodes) (hperm : nodes.Perm nodes')
    (hvalue : ∀ a ∈ nodes, m.value a = c.memory.value a) :
    Indexed hash { c with memory := m } nodes' where
  nodup := hperm.nodup h.nodup
  numbered a ha := h.numbered a (hperm.mem_iff.mpr ha)
  index := h.index.trans hperm
  keyed e he := by
    rw [hvalue e.2 (h.index.mem_iff.mp (mem_map_of_mem he))]
    exact h.keyed e he
  apart := h.apart
  numBlocks_eq := h.numBlocks_eq

theorem Indexed.length_eq (h : Indexed hash c nodes) : c.cachedBlocks.length = nodes.length := by
  rw [← h.index.length_eq, length_map]

variable {key : XXH3Key}

theorem Indexed.mem_of_find {e : XXH3Key × Addr} (h : Indexed hash c nodes)
    (hfind : unorderedFind hash c.cachedBlocks key = some e) : e.2 ∈ nodes :=
  h.index.mem_iff.mp (mem_map_of_mem (unorderedFind_eq_some hfind).1)

variable {block : Block}

theorem Indexed.create (h : Indexed hash c nodes)
    (hnone : unorderedFind hash c.cachedBlocks key = none) (hkey : block.hashValue = key)
    (hnew : m.value (.node c.nextNode) = some block)
    (hvalue : ∀ a ∈ nodes, m.value a = c.memory.value a) :
    Indexed hash
      { c with
        memory := m
        nextNode := c.nextNode + 1
        cachedBlocks := unorderedEmplace hash c.cachedBlocks key (.node c.nextNode)
        numBlocks := c.numBlocks + 1 } (.node c.nextNode :: nodes) := by
  have hemplace : unorderedEmplace hash c.cachedBlocks key (Addr.node c.nextNode) =
      (key, .node c.nextNode) :: c.cachedBlocks := by
    rw [unorderedEmplace, hnone]
    rfl
  rw [hemplace]
  have hfresh : Addr.node c.nextNode ∉ nodes := by
    intro hmem
    obtain ⟨p, hp, he⟩ := h.numbered _ hmem
    exact absurd (Addr.node.inj he) hp.ne'
  refine ⟨List.nodup_cons.mpr ⟨hfresh, h.nodup⟩, ?_, h.index.cons _, ?_, ?_, ?_⟩
  · intro a ha
    rcases List.mem_cons.mp ha with rfl | ha
    · exact ⟨c.nextNode, Nat.lt_succ_self _, rfl⟩
    · obtain ⟨p, hp, rfl⟩ := h.numbered a ha
      exact ⟨p, Nat.lt_succ_of_lt hp, rfl⟩
  · intro e he
    rcases List.mem_cons.mp he with rfl | he
    · rw [hnew, Option.map_some, hkey]
    · rw [hvalue e.2 (h.index.mem_iff.mp (mem_map_of_mem he))]
      exact h.keyed e he
  · refine List.pairwise_cons.mpr ⟨fun e he hsame => ?_, h.apart⟩
    exact unorderedFind_eq_none.mp hnone e he (sameKey_symm hsame)
  · rw [h.numBlocks_eq, length_cons]

/-- A node leaves the map and the list. -/
theorem Indexed.erase (h : Indexed hash c (xs ++ a :: ys))
    (hblock : c.memory.value a = some block)
    (hvalue : ∀ b ∈ xs ++ ys, m.value b = c.memory.value b) :
    Indexed hash
      { c with
        memory := m
        cachedBlocks := unorderedErase hash c.cachedBlocks block.hashValue
        numBlocks := c.numBlocks - 1 } (xs ++ ys) := by
  obtain ⟨e, he, hea⟩ := List.mem_map.mp (h.index.mem_iff.mpr (by simp : a ∈ xs ++ a :: ys))
  have hkey : e.1 = block.hashValue := by
    have hkeyed := h.keyed e he
    rw [hea, hblock, Option.map_some, Option.some_inj] at hkeyed
    exact hkeyed.symm
  obtain ⟨l, r, hlr⟩ := append_of_mem he
  have hapart := h.apart
  rw [hlr, pairwise_append, pairwise_cons] at hapart
  obtain ⟨hl, ⟨her, hr⟩, hcross⟩ := hapart
  have herase : unorderedErase hash c.cachedBlocks block.hashValue = l ++ r := by
    rw [hlr, unorderedErase, filter_append, filter_cons_of_neg, ← hkey,
      List.filter_eq_self.mpr, List.filter_eq_self.mpr]
    · intro e' he'
      simpa using fun hsame => her e' he' (sameKey_symm hsame)
    · intro e' he'
      simpa using hcross e' he' e mem_cons_self
    · simp [hkey, sameKey_refl]
  have hindex : ((l ++ r).map Prod.snd).Perm (xs ++ ys) := by
    have hperm := h.index
    rw [hlr, map_append, map_cons, hea] at hperm
    rw [map_append]
    exact ((List.perm_middle.symm.trans hperm).trans perm_middle).cons_inv
  have hsub : ∀ e' ∈ l ++ r, e' ∈ c.cachedBlocks := by
    intro e' he'
    rw [hlr]
    rcases List.mem_append.mp he' with he' | he'
    · exact mem_append_left _ he'
    · exact mem_append_right _ (mem_cons_of_mem _ he')
  rw [herase]
  refine ⟨?_, ?_, hindex, ?_, ?_, ?_⟩
  · exact h.nodup.sublist (List.Sublist.append_left (sublist_cons_self a ys) xs)
  · intro b hb
    refine h.numbered b ?_
    rcases List.mem_append.mp hb with hb | hb
    · exact mem_append_left _ hb
    · exact mem_append_right _ (mem_cons_of_mem _ hb)
  · intro e' he'
    rw [hvalue e'.2 (hindex.mem_iff.mp (mem_map_of_mem he'))]
    exact h.keyed e' (hsub e' he')
  · exact List.pairwise_append.mpr
      ⟨hl, hr, fun e₁ he₁ e₂ he₂ => hcross e₁ he₁ e₂ (mem_cons_of_mem _ he₂)⟩
  · rw [h.numBlocks_eq, hlr]
    simp

abbrev Lists (m : Memory Addr Block) (old recent : List Addr) : Prop :=
  LinkedPair m .lruFront .lruBack .listFront .listBack old recent

/-- In a running call, the nodes of the map are divided between the two lists. -/
structure Passing (hash : List UInt8 → UInt64) (c : LinkedPrefixCache) (old recent : List Addr) :
    Prop where
  lists : Lists c.memory old recent
  indexed : Indexed hash c (old ++ recent)
  allocated : ∀ a, (c.memory.value a).isSome ↔
    a ∈ spine .lruFront .lruBack old ∨ a ∈ spine .listFront .listBack recent

theorem mem_lists_iff : a ∈ spine .lruFront .lruBack old ∨ a ∈ spine .listFront .listBack recent ↔
    a = .lruFront ∨ a = .lruBack ∨ a = .listFront ∨ a = .listBack ∨ a ∈ old ++ recent := by
  rw [mem_spine, mem_spine, mem_append]
  tauto

theorem Passing.relink {old' recent' : List Addr} (h : Passing hash c old recent)
    (hvalue : m.value = c.memory.value) (hlists : Lists m old' recent')
    (hperm : (old ++ recent).Perm (old' ++ recent')) :
    Passing hash { c with memory := m } old' recent' where
  lists := hlists
  indexed := h.indexed.relink hperm fun a _ => congrFun hvalue a
  allocated a := by
    rw [hvalue, h.allocated, mem_lists_iff, mem_lists_iff, hperm.mem_iff]

theorem Consistent.openList (h : Consistent hash c lru) : Passing hash c.openList lru [] := by
  have hnode : ∀ b ∈ lru, ∃ p, b = .node p := fun b => h.indexed.isNode
  have hcell : ∀ b ∈ spine Addr.lruFront .lruBack lru,
      c.openList.memory.cell b = c.memory.cell b := by
    intro b hb
    have hne : b ≠ .listFront ∧ b ≠ .listBack := by
      rcases mem_spine.mp hb with rfl | hb | rfl
      · decide
      · obtain ⟨p, rfl⟩ := hnode b hb
        exact ⟨by simp, by simp⟩
      · decide
    simp [LinkedPrefixCache.openList, Memory.init, hne.1, hne.2]
  refine ⟨⟨h.linked.frame hcell, linked_init (by decide), ?_⟩, ?_, ?_⟩
  · intro b hb hb'
    have hsentinel : b = .listFront ∨ b = .listBack := by simpa [mem_spine] using hb'
    have hisNode : b = .lruFront ∨ b = .lruBack ∨ ∃ p, b = .node p := by
      rcases mem_spine.mp hb with hb | hb | hb
      · exact .inl hb
      · exact .inr (.inr (hnode b hb))
      · exact .inr (.inl hb)
    rcases hsentinel with rfl | rfl <;> simp at hisNode
  · refine h.indexed.relink (by simp) fun b hb => Memory.value_congr ?_
    exact hcell b (mem_spine.mpr (.inr (.inl hb)))
  · intro b
    by_cases hb : b = .listFront ∨ b = .listBack
    · have hvalue : (c.openList.memory.value b).isSome := by
        rcases hb with rfl | rfl <;> simp [LinkedPrefixCache.openList, Memory.init, Memory.value]
      rw [mem_lists_iff]
      tauto
    · have hother : c.openList.memory.value b = c.memory.value b := by
        rw [not_or] at hb
        simp [LinkedPrefixCache.openList, Memory.init, Memory.value, hb.1, hb.2]
      rw [hother, h.allocated, mem_lists_iff, mem_spine, append_nil]
      tauto

variable {w : Pass}

theorem Pass.touch_eq (h : Passing hash w.cache old recent) (ha : a ∈ old ++ recent) :
    ∃ m, w.touch a = .ok { w with cache := { w.cache with memory := m } } ∧
      m.value = w.cache.memory.value ∧
      Passing hash { w.cache with memory := m } (old.filter (· ≠ a))
        (a :: recent.filter (· ≠ a)) := by
  obtain ⟨p, rfl⟩ := h.indexed.isNode ha
  obtain ⟨next, m₁, hremove, hvalue₁, hpair₁⟩ := h.lists.removeNode ha
  have hallocated : (m₁.value (.node p)).isSome := by
    rw [hvalue₁, h.allocated, mem_lists_iff]
    simp only [ha, or_true]
  obtain ⟨m₂, hpush, hvalue₂, hpair₂⟩ :=
    hpair₁.pushFront hallocated (by simp [mem_spine]) (by simp [mem_spine])
  refine ⟨m₂, ?_, hvalue₂.trans hvalue₁, h.relink (hvalue₂.trans hvalue₁) hpair₂ ?_⟩
  · simp only [Pass.touch, hremove, hpush, deref_some, ok_bind]
  · -- Both lists together lose the node once and get it back.
    have hfilter : ((old ++ recent).filter (· ≠ .node p)) = (old ++ recent).erase (.node p) := by
      rw [h.indexed.nodup.erase_eq_filter]
      exact filter_congr fun b _ => by simp [bne, Bool.beq_eq_decide_eq]
    rw [filter_append] at hfilter
    refine (perm_cons_erase ha).trans ?_
    rw [← hfilter]
    exact List.perm_middle.symm

theorem Pass.create_eq (h : Passing hash w.cache old recent)
    (hnone : unorderedFind hash w.cache.cachedBlocks key = none) (hkey : block.hashValue = key) :
    ∃ w', w.create hash key block = .ok w' ∧
      w'.cache.memory.value = (w.cache.memory.alloc (.node w.cache.nextNode) block).value ∧
      Passing hash w'.cache old (.node w.cache.nextNode :: recent) := by
  set node := Addr.node w.cache.nextNode with hnode
  have hfresh : node ∉ old ++ recent := by
    intro hmem
    obtain ⟨p, hp, he⟩ := h.indexed.numbered _ hmem
    exact absurd (Addr.node.inj he) hp.ne'
  have hspine : node ∉ spine Addr.lruFront .lruBack old ∧
      node ∉ spine Addr.listFront .listBack recent := by
    rw [← not_or, mem_lists_iff]
    simpa [hnode] using hfresh
  have hcell : ∀ b, b ≠ node → (w.cache.memory.alloc node block).cell b = w.cache.memory.cell b :=
    fun b hb => Function.update_of_ne hb _ _
  have hpair : Lists (w.cache.memory.alloc node block) old recent := by
    refine ⟨h.lists.left.frame fun b hb => ?_, h.lists.right.frame fun b hb => ?_, h.lists.disjoint⟩
    · exact hcell b (ne_of_mem_of_not_mem hb hspine.1)
    · exact hcell b (ne_of_mem_of_not_mem hb hspine.2)
  have hvalue : (w.cache.memory.alloc node block).value node = some block := by
    simp [Memory.alloc, Memory.value]
  obtain ⟨m, hpush, hm, hpair'⟩ :=
    hpair.pushFront (hvalue ▸ rfl) hspine.1 hspine.2
  refine ⟨_, by rw [Pass.create, hpush, deref_some, ok_bind], hm, hpair', ?_, ?_⟩
  · have hindexed := h.indexed.create (m := m) hnone hkey (by rw [hm, hvalue]) fun b hb => by
      rw [hm]
      exact Memory.value_congr (hcell b (ne_of_mem_of_not_mem hb hfresh))
    have hperm : (node :: (old ++ recent)).Perm (old ++ node :: recent) := List.perm_middle.symm
    exact hindexed.relink (m := m) hperm fun _ _ => rfl
  · intro b
    rw [hm, mem_lists_iff]
    by_cases hb : b = node
    · subst hb
      rw [hvalue]
      simp
    · rw [Memory.value_congr (hcell b hb), h.allocated, mem_lists_iff, mem_append,
        mem_append, mem_cons]
      tauto

theorem Pass.store_passing (h : Passing hash w.cache old recent) (hkey : block.hashValue = key) :
    ∃ w', w.store hash key block = .ok w' ∧
      ∃ old' recent', Passing hash w'.cache old' recent' := by
  rw [Pass.store]
  cases hfind : unorderedFind hash w.cache.cachedBlocks key with
  | some e =>
      obtain ⟨m, htouch, -, hpassing⟩ := Pass.touch_eq h (h.indexed.mem_of_find hfind)
      exact ⟨_, htouch, _, _, hpassing⟩
  | none =>
      obtain ⟨w', hcreate, -, hpassing⟩ := Pass.create_eq h hfind hkey
      exact ⟨w', hcreate, _, _, hpassing⟩

theorem Passing.drain (h : Passing hash c old recent) :
    ∃ m, c.drain = .ok { c with memory := m } ∧ m.value = c.memory.value ∧
      Passing hash { c with memory := m } (old ++ recent) [] := by
  have hrounds : recent.length ≤ c.cachedBlocks.length := by
    rw [h.indexed.length_eq, length_append]
    exact Nat.le_add_left _ _
  unfold LinkedPrefixCache.drain
  generalize c.cachedBlocks.length = rounds at hrounds
  induction recent generalizing c old rounds with
  | nil =>
      refine ⟨c.memory, ?_, rfl, by simpa using h⟩
      have hempty := h.lists.right.isEmpty
      cases rounds <;> simp [loop, hempty]
  | cons a recent ih =>
      obtain ⟨rounds, rfl⟩ : ∃ n, rounds = n + 1 := ⟨rounds - 1, by simp at hrounds; omega⟩
      obtain ⟨m₁, m₂, hpop, hpush, hvalue, hpair⟩ := h.lists.shift
      have hmoved : Passing hash { c with memory := m₂ } (old ++ [a]) recent := by
        refine h.relink hvalue hpair ?_
        simp
      obtain ⟨m, hloop, hm, hpassing⟩ := ih hmoved rounds (by simpa using hrounds)
      refine ⟨m, ?_, hm.trans hvalue, by simpa using hpassing⟩
      have hempty := h.lists.right.isEmpty
      rw [loop, if_pos (by simp [hempty])]
      simp only [hpop, hpush, deref_some, ok_bind]
      exact hloop

theorem Passing.closeList (h : Passing hash c old []) (s : BlockHeap) :
    ∃ m, c.closeList s = .ok ({ c with memory := m }, s) ∧
      (∀ a ∈ old, m.value a = c.memory.value a) ∧ Consistent hash { c with memory := m } old := by
  set m := (c.memory.free .listFront).free .listBack with hm
  have hdestroy : destroyLoop c.cachedBlocks.length .listBack c.memory s = .ok (c.memory, s) := by
    cases c.cachedBlocks.length <;> simp [destroyLoop]
  have hcell : ∀ b, b ≠ .listFront → b ≠ .listBack → m.cell b = c.memory.cell b := by
    intro b hfront hback
    simp [hm, Memory.free, hfront, hback]
  have hlru : ∀ b ∈ spine Addr.lruFront .lruBack old, m.cell b = c.memory.cell b := by
    intro b hb
    have hother := h.lists.disjoint b hb
    rw [mem_spine, not_or, not_or] at hother
    exact hcell b hother.1 hother.2.2
  have hnodes : ∀ b ∈ old, m.value b = c.memory.value b := fun b hb =>
    Memory.value_congr (hlru b (mem_spine.mpr (.inr (.inl hb))))
  refine ⟨m, ?_, hnodes, h.lists.left.frame hlru, ?_, ?_⟩
  · simp only [LinkedPrefixCache.closeList, h.lists.right.next_front, deref_some, ok_bind,
      headD_nil, hdestroy]
    rfl
  · exact h.indexed.relink (by simp) (by simpa using hnodes)
  · intro b
    by_cases hb : b = .listFront ∨ b = .listBack
    · have hnone : m.value b = none := by
        rcases hb with rfl | rfl <;> simp [hm, Memory.free, Memory.value]
      have hother : b ∉ spine Addr.lruFront .lruBack old := by
        intro hmem
        refine h.lists.disjoint b hmem ?_
        rw [mem_spine]
        tauto
      simp [hnone, hother]
    · rw [not_or] at hb
      have hempty : b ∉ spine Addr.listFront .listBack [] := by simp [mem_spine, hb.1, hb.2]
      rw [Memory.value_congr (hcell b hb.1 hb.2), h.allocated]
      exact or_iff_left hempty

theorem Pass.finish_eq (h : Passing hash w.cache old recent) :
    ∃ m, w.finish = .ok { w with cache := { w.cache with memory := m } } ∧
      (∀ a ∈ old ++ recent, m.value a = w.cache.memory.value a) ∧
      Consistent hash { w.cache with memory := m } (old ++ recent) := by
  obtain ⟨m₁, hdrain, hvalue₁, hpassing⟩ := h.drain
  obtain ⟨m₂, hclose, hvalue₂, hconsistent⟩ := hpassing.closeList w.heap
  refine ⟨m₂, ?_, fun a ha => (hvalue₂ a ha).trans (congrFun hvalue₁ a), hconsistent⟩
  simp only [Pass.finish, hdrain, hclose, ok_bind]

/-- Some division of the nodes between the two lists. -/
def Running (hash : List UInt8 → UInt64) (w : Pass) : Prop :=
  ∃ old recent, Passing hash w.cache old recent

/-- Some order of the nodes in the LRU list. -/
def Sound (hash : List UInt8 → UInt64) (c : LinkedPrefixCache) : Prop :=
  ∃ lru, Consistent hash c lru

theorem Running.finish (h : Running hash w) :
    Ensures w.finish Stops (fun w' => Sound hash w'.cache) := by
  obtain ⟨old, recent, hpassing⟩ := h
  obtain ⟨m, hfinish, -, hconsistent⟩ := Pass.finish_eq hpassing
  rw [hfinish]
  exact ⟨_, hconsistent⟩

theorem Running.store (h : Running hash w)
    (hkey : block.hashValue = key) :
    Ensures (w.store hash key block) Stops (Running hash) := by
  obtain ⟨old, recent, hpassing⟩ := h
  obtain ⟨w', hstore, hrunning⟩ := Pass.store_passing hpassing hkey
  rw [hstore]
  exact hrunning

theorem xxh3128bitsHash_stops [XXH3] (preHash : Option XXH3Key) (tokens : List Token) :
    Ensures (xxh3128bitsHash preHash tokens) Stops (fun _ => True) := by
  cases preHash with
  | none => exact trivial
  | some key =>
      rw [xxh3128bitsHash]
      split
      · exact trivial
      · exact .inl rfl

theorem Running.matchLoop [XXH3] (h : Running hash w) (todo : List (List Token))
    (preHash : Option XXH3Key) (blocks : List Block) :
    Ensures (matchLoop hash todo preHash blocks w) Stops (fun r => Running hash r.2) := by
  induction todo generalizing preHash blocks w with
  | nil => exact h
  | cons tokens rest ih =>
      refine (xxh3128bitsHash_stops preHash tokens).bind fun key _ => ?_
      obtain ⟨old, recent, hpassing⟩ := h
      cases hfind : unorderedFind hash w.cache.cachedBlocks key with
      | none => exact ⟨old, recent, hpassing⟩
      | some e =>
          have hmem := hpassing.indexed.mem_of_find hfind
          have hvalue : (w.cache.memory.value e.2).isSome := by
            rw [hpassing.allocated, mem_lists_iff]
            simp only [hmem, or_true]
          obtain ⟨block, hblock⟩ := Option.isSome_iff_exists.mp hvalue
          obtain ⟨m, htouch, -, htouched⟩ := Pass.touch_eq hpassing hmem
          simp only [hblock, htouch]
          exact ih ⟨_, _, htouched⟩ (some key) (blocks ++ [block])

theorem Running.insertLoop [XXH3] (h : Running hash w) (blockSize : Nat)
    (tokenIds : List Token) (todo : List (List Token × Block)) (blockIdx : Nat)
    (preHash : Option XXH3Key) :
    Ensures (insertLoop hash blockSize tokenIds todo blockIdx preHash w) Stops
      (fun r => Running hash r.2) := by
  induction todo generalizing blockIdx preHash w with
  | nil => exact h
  | cons e rest ih =>
      obtain ⟨tokens, block⟩ := e
      refine (xxh3128bitsHash_stops preHash tokens).bind fun key _ => ?_
      refine (h.store (Block.setHashValue_hashValue block key _)).bind fun w' hw' => ?_
      refine (ih hw' (blockIdx + 1) (some key)).bind ?_
      rintro ⟨stamped, w''⟩ hw''
      exact hw''

theorem Running.insertBlocksLoop (h : Running hash w) (blocks : List Block) :
    Ensures (insertBlocksLoop hash blocks w) Stops (Running hash) := by
  induction blocks generalizing w with
  | nil => exact h
  | cons block rest ih =>
      rw [LinkedPrefixCache.insertBlocksLoop]
      by_cases hvalid : block.isValid = true
      · rw [if_pos hvalid]
        exact (h.store rfl).bind fun w' hw' => ih hw'
      · rw [if_neg hvalid]
        exact ih h

theorem Sound.openList (h : Sound hash c) (s : BlockHeap) :
    Running hash { cache := c.openList, heap := s } := by
  obtain ⟨lru, hconsistent⟩ := h
  exact ⟨lru, [], hconsistent.openList⟩

theorem Sound.matchTokens [XXH3] (h : Sound hash c) (s : BlockHeap) (tokenIds : List Token)
    (existed : List Block) :
    Ensures (c.matchTokens hash s tokenIds existed) Stops (fun r => Sound hash r.2.1) := by
  rw [LinkedPrefixCache.matchTokens]
  split
  · exact h
  · refine ((h.openList _).matchLoop _ _ existed).bind ?_
    rintro ⟨blocks, w⟩ hw
    exact hw.finish.bind fun w' hw' => hw'

theorem Sound.insert [XXH3] (h : Sound hash c) (s : BlockHeap) (tokenIds : List Token)
    (blocks : List Block) (k : Nat) :
    Ensures (c.insert hash s tokenIds blocks k) Stops (fun r => Sound hash r.cache) := by
  rw [LinkedPrefixCache.insert]
  split
  · exact h
  · split
    · exact .inr (.inl rfl)
    · refine ((h.openList s).insertLoop _ tokenIds _ k _).bind ?_
      rintro ⟨stamped, w⟩ hw
      exact hw.finish.bind fun w' hw' => hw'

theorem Sound.insertBlocks (h : Sound hash c) (s : BlockHeap) (blocks : List Block) :
    Ensures (c.insertBlocks hash s blocks) Stops (fun r => Sound hash r.cache) := by
  refine ((h.openList s).insertBlocksLoop blocks).bind fun w hw => ?_
  exact hw.finish.bind fun w' hw' => hw'

theorem freeBlock_stops (s : BlockHeap) (blockId : Int) :
    Ensures (s.freeBlock blockId) Stops (fun _ => True) := by
  rw [BlockHeap.freeBlock]
  split
  · dsimp only
    split
    · exact trivial
    · exact .inr (.inr rfl)
  · exact trivial

theorem decRefCount_stops (s : BlockHeap) (b : Block) :
    Ensures (s.decRefCount b) Stops (fun _ => True) := by
  rw [BlockHeap.decRefCount]
  split
  · exact trivial
  · split
    · exact freeBlock_stops _ _
    · exact trivial

/-- An evicted node is unlinked from list and map; the others stay. -/
theorem evictNode_ensures {r : Evicted} (h : Consistent hash r.cache (xs ++ a :: ys))
    (hblock : r.cache.memory.value a = some block) :
    Ensures (evictNode hash r a block) Stops
      (fun t => t.1 = ys.headD .lruBack ∧
        (∀ b ∈ xs ++ ys, t.2.cache.memory.value b = r.cache.memory.value b) ∧
        Consistent hash t.2.cache (xs ++ ys)) := by
  obtain ⟨m, hremove, hlinked, hrelinked⟩ := h.linked.removeNode
  have hnotMem := (List.nodup_cons.mp (List.nodup_middle.mp h.indexed.nodup)).1
  have hspine : a ∉ spine Addr.lruFront .lruBack (xs ++ ys) := by
    obtain ⟨p, rfl⟩ := h.indexed.isNode (mem_append_right xs mem_cons_self)
    simpa [mem_spine] using hnotMem
  have hcell : ∀ b, b ≠ a → (m.free a).cell b = m.cell b := fun b hb => Function.update_of_ne hb _ _
  have hvalue : ∀ b, b ≠ a → (m.free a).value b = r.cache.memory.value b := by
    intro b hb
    rw [Memory.value_congr (hcell b hb), hrelinked.value]
  rw [evictNode, hremove, deref_some, ok_bind]
  dsimp only
  rw [deleteNode, hrelinked.value, hblock, deref_some, ok_bind, bind_assoc]
  refine (decRefCount_stops r.heap block).bind fun heap _ =>
    ⟨rfl, fun b hb => hvalue b (ne_of_mem_of_not_mem hb hnotMem), ?_, ?_, ?_⟩
  · exact hlinked.frame fun b hb => hcell b (ne_of_mem_of_not_mem hb hspine)
  · exact h.indexed.erase hblock fun b hb => hvalue b (ne_of_mem_of_not_mem hb hnotMem)
  · intro b
    by_cases hb : b = a
    · subst hb
      simp [Memory.free, Memory.value, hspine]
    · dsimp only
      rw [hvalue b hb, h.allocated, mem_spine, mem_spine, mem_append, mem_append,
        mem_cons]
      tauto

/-- The loop of `evict` goes over the rest of the list, each node of it once. -/
theorem evictLoop_ensures {r : Evicted} {nBlocks rounds : Nat}
    (h : Consistent hash r.cache (xs ++ ys)) (hrounds : ys.length ≤ rounds) :
    Ensures (evictLoop hash nBlocks rounds (ys.headD .lruBack) r) Stops
      (fun r' => Sound hash r'.cache) := by
  induction ys generalizing xs r rounds with
  | nil => cases rounds <;> simpa [evictLoop] using ⟨_, h⟩
  | cons a ys ih =>
      obtain ⟨rounds, rfl⟩ : ∃ n, rounds = n + 1 := ⟨rounds - 1, by simp at hrounds; omega⟩
      have hrest : ys.length ≤ rounds := by simpa using hrounds
      have hmem : a ∈ spine Addr.lruFront .lruBack (xs ++ a :: ys) := by simp [mem_spine]
      obtain ⟨block, hblock⟩ := Option.isSome_iff_exists.mp ((h.allocated a).mpr hmem)
      rw [headD_cons, evictLoop]
      split
      · simp only [hblock, deref_some, ok_bind]
        split
        · simp only [h.linked.next_node]
          have hpassed : Consistent hash r.cache ((xs ++ [a]) ++ ys) := by simpa using h
          exact ih hpassed hrest
        · refine (evictNode_ensures h hblock).bind ?_
          rintro ⟨next, r'⟩ ⟨rfl, -, hconsistent⟩
          exact ih hconsistent hrest
      · exact ⟨_, h⟩

theorem Sound.evict (h : Sound hash c) (s : BlockHeap) (nBlocks : Nat) :
    Ensures (c.evict hash s nBlocks) Stops (fun r => Sound hash r.cache) := by
  obtain ⟨lru, hconsistent⟩ := h
  rw [LinkedPrefixCache.evict, hconsistent.linked.isEmpty, deref_some, ok_bind]
  split
  · exact ⟨lru, hconsistent⟩
  · rw [hconsistent.linked.next_front]
    have hall : Consistent hash c ([] ++ lru) := hconsistent
    exact evictLoop_ensures hall hconsistent.indexed.length_eq.ge

theorem consistent_empty (blockSize : Nat) : Consistent hash { blockSize := blockSize } [] := by
  refine ⟨linked_init (by decide), ⟨nodup_nil, by simp, .refl _, by simp, .nil, rfl⟩, ?_⟩
  intro a
  cases a <;> simp [Memory.init, Memory.empty, Memory.value, mem_spine]

theorem Sound.step [XXH3] (h : Sound hash c) (op : PrefixCache.CacheOp) :
    Ensures (step hash c op) Stops (Sound hash) := by
  cases op with
  | insert heap tokenIds blocks k => exact (h.insert heap tokenIds blocks k).bind fun r hr => hr
  | insertBlocks heap blocks => exact (h.insertBlocks heap blocks).bind fun r hr => hr
  | matchTokens heap tokenIds existed =>
      refine (h.matchTokens heap tokenIds existed).bind ?_
      rintro ⟨blocks, cache, heap⟩ hr
      exact hr
  | evict heap n => exact (h.evict heap n).bind fun r hr => hr

/-- In every run of calls, the cache keeps its representation, and `num_blocks` returns
the length of the LRU list. -/
theorem run_consistent [XXH3] (hash : List UInt8 → UInt64) (blockSize : Nat)
    (ops : List PrefixCache.CacheOp) :
    Ensures (run (step hash) { blockSize := blockSize } ops) Stops fun c => ∃ lru,
      Consistent hash c lru ∧ (∀ l, Linked c.memory .lruFront .lruBack l → l = lru) ∧
        c.cachedBlocks.length = lru.length ∧ c.numBlocksChecked = .ok lru.length := by
  have hrun : Ensures (run (step hash) { blockSize := blockSize } ops) Stops (Sound hash) :=
    Ensures.run (fun c op hc => hc.step op) ⟨[], consistent_empty blockSize⟩
  refine hrun.mono_post ?_
  rintro c ⟨lru, h⟩
  refine ⟨lru, h, fun l hl => hl.unique h.linked, h.indexed.length_eq, ?_⟩
  rw [numBlocksChecked, if_pos h.indexed.numBlocks_eq, h.indexed.numBlocks_eq, h.indexed.length_eq]

end LinkedPrefixCache

end Xllm
