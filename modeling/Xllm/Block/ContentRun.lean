import Xllm.Block.Content

/-!
# Only computed blocks are cached

A rank together with the contents of its blocks. A batch writes the positions that it counts;
batches are executed in the order in which they are built, so what a batch writes is there
for all later ones. The data of other positions comes later than their count:

* a decode instance counts the whole prompt when it reserves the blocks, and the prefill
  instance pushes the data afterwards;
* tokens that are loaded from the host are counted when the copy is ordered;
* under overlap a batch computes a placeholder, and the token is known after the batch before
  it has returned;
* context-parallel padding is counted and is no token at all.

A run is any list of these events and of the calls of schedulers and handlers.
`run_coherent` shows that the prefix cache holds computed blocks in every run in which no
sequence is cached or given back too early.
-/

namespace Xllm

open Contract Ledger List Function Multiset

namespace Sequence

variable (seq : Sequence)

def positionAt (blockSize start stop : Nat) (id : Int) (r : Nat) : Option Nat :=
  (List.range' start (stop - start)).find? fun q =>
    (seq.kvState.blocks[q / blockSize]?).map Block.id = some id ∧ q % blockSize = r

/-- The contents after the positions from `start` up to `stop` have been computed. -/
def write (content : Content) (blockSize start stop : Nat) : Content := fun id r =>
  match seq.positionAt blockSize start stop id r with
  | some q => seq.known q
  | none => content id r

/-- The pending positions after the same. -/
def leave (pending : List Nat) (blockSize start stop : Nat) : List Nat :=
  pending.filter (fun q => q < start ∨ stop ≤ q) ++
    (List.range' start (stop - start)).filter fun q =>
      seq.known q = none ∨ seq.kvState.blocks[q / blockSize]? = none

/-- A position of a shared block is only written with what it holds. -/
def Rewrites (content : Content) (blockSize start stop : Nat) : Prop :=
  ∀ q ∈ List.range' start (stop - start), q < seq.kvState.numOwnedSharedBlocks * blockSize →
    ∀ b ∈ seq.kvState.blocks[q / blockSize]?, content b.id (q % blockSize) = seq.known q

instance (content : Content) (blockSize start stop : Nat) :
    Decidable (seq.Rewrites content blockSize start stop) := by
  unfold Rewrites
  infer_instance

/-- The positions of the `j`-th block hold these tokens when data for the sequence arrives
there, and one of them is waited for. -/
def Expects (blockSize : Nat) (pending : List Nat) (j : Nat) (id : Int) (tokens : List Token) :
    Prop :=
  (seq.kvState.blocks[j]?).map Block.id = some id ∧ seq.kvState.numOwnedSharedBlocks ≤ j ∧
    (∃ q ∈ pending, j * blockSize ≤ q ∧ q < (j + 1) * blockSize ∧
      q < seq.kvState.kvCacheTokensNum) ∧
    ∀ r < blockSize, j * blockSize + r < seq.kvState.kvCacheTokensNum →
      seq.known (j * blockSize + r) ≠ none ∧ tokens[r]? = seq.known (j * blockSize + r)

instance (blockSize : Nat) (pending : List Nat) (j : Nat) (id : Int) (tokens : List Token) :
    Decidable (seq.Expects blockSize pending j id tokens) := by
  unfold Expects
  infer_instance

end Sequence

/-- A rank and what its blocks hold. `pending` are the positions of each sequence that are
counted before they are written. -/
structure ContentState where
  pool : PoolState
  content : Content := fun _ _ => none
  pending : Nat → List Nat := fun _ => []

/-- What happens to the blocks of a rank. -/
inductive ContentOp where
  | serve (op : PoolOp)
  /-- `decode_recv_new_requests`: the blocks of a new sequence are reserved. -/
  | newRequest (promptTokenIds : List Token) (capacity beamWidth : Nat)
  | destroy (i : Nat)
  /-- The second half of `HierarchyBlockManagerPool::allocate`. -/
  | loadHost (i hostCacheTokenNum : Nat)
  /-- Data for the blocks of a sequence from the `first` on: it is pushed by the prefill
  instance, pulled from there, or copied from the host. The blocks are named by the ids
  that were sent or noted when they were reserved. -/
  | transfer (i first : Nat) (ids : List Int) (tokens : List Token)

namespace ContentState

def blockSize (g : ContentState) : Nat := g.pool.rank.blockManager.options.blockSize

/-- The positions of the `i`-th sequence from `start` up to `stop` are computed. -/
def write (g : ContentState) (i : Nat) (seq : Sequence) (start stop : Nat) (pool : PoolState) :
    ContentState where
  pool := pool
  content := seq.write g.content g.blockSize start stop
  pending := update g.pending i (seq.leave (g.pending i) g.blockSize start stop)

def tokensOf (tokens : List Token) (blockSize j : Nat) : List Token :=
  (tokens.drop (j * blockSize)).take blockSize

section

variable [XXH3] (g : ContentState)

/-- A call for a sequence. A token that is appended behind one that no batch has counted
comes from a speculative step, which has computed the tokens before it. A token that takes
the place of a placeholder tells what the last batch has computed there. -/
def serve : PoolOp → Except Check ContentState
  | .tryAllocate _ => .ok g
  | .forward i allowedMaxTokens cpSize isPrefill =>
      match g.pool.sequences[i]? with
      | none => .ok g
      | some seq => do
          let pool ← g.pool.step (.forward i allowedMaxTokens cpSize isPrefill)
          .ok (g.write i seq seq.kvState.kvCacheTokensNum (seq.kvState.kvCacheTokensNum +
            (seq.querySeqLen allowedMaxTokens cpSize isPrefill).2) pool)
  | .appendToken i token =>
      match g.pool.sequences[i]? with
      | none => .ok g
      | some seq => do
          let pool ← g.pool.step (.appendToken i token)
          .ok (g.write i seq seq.kvState.kvCacheTokensNum seq.numTokens pool)
  | .updateToken i index token =>
      match g.pool.sequences[i]? with
      | none => .ok g
      | some seq => do
          let pool ← g.pool.step (.updateToken i index token)
          if index < seq.kvState.kvCacheTokensNum then
            if seq.known index = none then
              .ok (g.write i (seq.updateToken index token) index (index + 1) pool)
            else .ok { g with
              pool := pool
              pending := update g.pending i (index :: g.pending i) }
          else .ok { g with pool := pool }
  | op => do
      let pool ← g.pool.step op
      .ok { g with pool := pool }

/-- Reserving the blocks of a new sequence counts all its tokens. Without enough blocks the
sequence is given up. -/
def newRequest (promptTokenIds : List Token) (capacity beamWidth : Nat) :
    Except Check ContentState := do
  let index := g.pool.sequences.length
  let pool ← g.pool.step (.arrive promptTokenIds capacity beamWidth)
  let (allocated, pool) ← pool.tryAllocate index
  if allocated then
    let kvState := (pool.sequences[index]?.map Sequence.kvState).getD {}
    let start := kvState.numOwnedSharedBlocks * g.blockSize
    .ok { g with
      pool := pool
      pending := update g.pending index
        (List.range' start (kvState.kvCacheTokensNum - start)) }
  else
    let pool ← pool.destroy index
    .ok { g with pool := pool }

/-- The tokens that the host has beyond those of the device are counted, and the copies are
ordered. -/
def loadHost (i hostCacheTokenNum : Nat) : Except Check ContentState :=
  match g.pool.sequences[i]? with
  | none => .ok g
  | some seq =>
      let start := seq.kvState.kvCacheTokensNum
      if start < hostCacheTokenNum then do
        let kvState ← seq.kvState.incrKvCacheTokensNum (hostCacheTokenNum - start)
        .ok { g with
          pool := { g.pool with
            sequences := g.pool.sequences.set i { seq with kvState := kvState } }
          pending := update g.pending i
            ((g.pending i).filter (fun q => q < start) ++
              List.range' start (hostCacheTokenNum - start)) }
      else .ok g

def transfer (i first : Nat) (ids : List Int) (tokens : List Token) : ContentState :=
  { g with
    content := fun id r =>
      match ids.idxOf? id with
      | some j => (tokensOf tokens g.blockSize j)[r]?
      | none => g.content id r
    pending := update g.pending i ((g.pending i).filter fun q =>
      q < first * g.blockSize ∨ (first + ids.length) * g.blockSize ≤ q) }

def step : ContentOp → Except Check ContentState
  | .serve op => g.serve op
  | .newRequest promptTokenIds capacity beamWidth => g.newRequest promptTokenIds capacity beamWidth
  | .destroy i => do
      let pool ← g.pool.destroy i
      .ok { g with pool := pool }
  | .loadHost i hostCacheTokenNum => g.loadHost i hostCacheTokenNum
  | .transfer i first ids tokens => .ok (g.transfer i first ids tokens)

/-- Every block in the prefix cache holds the tokens from which its key was computed, and so
does every block that a match returns. -/
structure Coherent : Prop where
  entries : ∀ b ∈ g.pool.rank.blockManager.prefixCache.entries, Produced g.content g.blockSize b
  matched : ∀ tokens, ∀ b ∈ g.pool.rank.blockManager.prefixCache.matched tokens [],
    Produced g.content g.blockSize b

/-- No full block of the sequence behind the shared ones has a pending position. -/
def Ready (i : Nat) : Prop :=
  ∀ seq ∈ g.pool.sequences[i]?, ∀ q ∈ g.pending i,
    seq.kvState.numOwnedSharedBlocks * g.blockSize ≤ q →
      seq.kvState.kvCacheTokensNum / g.blockSize * g.blockSize ≤ q

/-- The events in the right order.

* A sequence is cached or deallocated when the data of its full blocks is there.
* A batch writes to a shared block only what it holds.
* A counted token is only exchanged for a placeholder.
* There is no beam search, which exchanges counted tokens before it exchanges blocks.
* Data arrives for a sequence that still waits for it in these blocks. -/
def Timely : ContentOp → Prop
  | .serve (.cache i) => g.Ready i
  | .serve (.deallocate i) => g.Ready i
  | .serve (.forward i allowedMaxTokens cpSize isPrefill) => ∀ seq ∈ g.pool.sequences[i]?,
      seq.Rewrites g.content g.blockSize seq.kvState.kvCacheTokensNum
        (seq.kvState.kvCacheTokensNum + (seq.querySeqLen allowedMaxTokens cpSize isPrefill).2)
  | .serve (.appendToken i _) => ∀ seq ∈ g.pool.sequences[i]?,
      seq.Rewrites g.content g.blockSize seq.kvState.kvCacheTokensNum seq.numTokens
  | .serve (.updateToken i index _) => ∀ seq ∈ g.pool.sequences[i]?,
      index < seq.kvState.kvCacheTokensNum → seq.known index = none ∧
        seq.kvState.numOwnedSharedBlocks * g.blockSize ≤ index
  | .serve (.setSrcBlocks _ _ _) => False
  | .transfer i first ids tokens => ∀ j < ids.length, ∃ seq ∈ g.pool.sequences[i]?,
      ∃ id ∈ ids[j]?, seq.Expects g.blockSize (g.pending i) (first + j) id
        (tokensOf tokens g.blockSize j)
  | _ => True

end

end ContentState

namespace Sequence

variable {seq : Sequence} {content : Content} {blockSize start stop : Nat} {id : Int} {r : Nat}

theorem positionAt_eq_some {q : Nat} (h : seq.positionAt blockSize start stop id r = some q) :
    start ≤ q ∧ q < stop ∧ (seq.kvState.blocks[q / blockSize]?).map Block.id = some id ∧
      q % blockSize = r := by
  have hmem := List.mem_range'_1.mp (mem_of_find?_eq_some h)
  have hplace := List.find?_some h
  rw [decide_eq_true_iff] at hplace
  exact ⟨hmem.1, by omega, hplace⟩

theorem write_cases (seq : Sequence) (content : Content) (blockSize start stop : Nat) (id : Int)
    (r : Nat) :
    seq.write content blockSize start stop id r = content id r ∨
      ∃ q b, start ≤ q ∧ q < stop ∧ seq.kvState.blocks[q / blockSize]? = some b ∧ b.id = id ∧
        q % blockSize = r ∧ seq.write content blockSize start stop id r = seq.known q := by
  rw [write]
  split
  · rename_i q hq
    obtain ⟨hle, hlt, hblock, hr⟩ := positionAt_eq_some hq
    obtain ⟨b, hb, hid⟩ := Option.map_eq_some_iff.mp hblock
    exact .inr ⟨q, b, hle, hlt, hb, hid, hr, rfl⟩
  · exact .inl rfl

theorem write_eq {q : Nat} {b : Block} (hle : start ≤ q) (hlt : q < stop)
    (hb : seq.kvState.blocks[q / blockSize]? = some b)
    (honly : ∀ (j : Nat) c, seq.kvState.blocks[j]? = some c → c.id = b.id → j = q / blockSize) :
    seq.write content blockSize start stop b.id (q % blockSize) = seq.known q := by
  have hsome : (seq.positionAt blockSize start stop b.id (q % blockSize)).isSome := by
    rw [positionAt, find?_isSome]
    refine ⟨q, List.mem_range'_1.mpr ⟨hle, by omega⟩, ?_⟩
    rw [hb]
    simp
  obtain ⟨q', hq'⟩ := Option.isSome_iff_exists.mp hsome
  obtain ⟨-, -, hblock, hmod⟩ := positionAt_eq_some hq'
  obtain ⟨c, hc, hid⟩ := Option.map_eq_some_iff.mp hblock
  have hdiv := honly _ c hc hid
  have hsame : q' = q := by
    rw [← Nat.div_add_mod q' blockSize, ← Nat.div_add_mod q blockSize, hdiv, hmod]
  rw [write, hq', hsame]

theorem mem_leave {pending : List Nat} {q : Nat} :
    q ∈ seq.leave pending blockSize start stop ↔ q ∈ pending ∧ (q < start ∨ stop ≤ q) ∨
      start ≤ q ∧ q < stop ∧
        (seq.known q = none ∨ seq.kvState.blocks[q / blockSize]? = none) := by
  simp only [leave, mem_append, List.mem_filter, mem_range'_1, decide_eq_true_eq]
  refine or_congr_right ?_
  constructor
  · rintro ⟨⟨hle, hlt⟩, hnone⟩
    exact ⟨hle, by omega, hnone⟩
  · rintro ⟨hle, hlt, hnone⟩
    exact ⟨⟨hle, by omega⟩, hnone⟩

namespace Tracked

variable {alone : Int → Prop} {pending : List Nat}

/-- Blocks that nobody else holds have one place in the sequence. -/
def Only (seq : Sequence) (alone : Int → Prop) : Prop :=
  ∀ (j k : Nat) b c, seq.kvState.blocks[j]? = some b → alone b.id →
    seq.kvState.blocks[k]? = some c → c.id = b.id → k = j

theorem alone_of_uncounted (h : seq.Tracked content blockSize alone pending) (hpos : 0 < blockSize)
    {q : Nat} {b : Block} (hshared : seq.kvState.numOwnedSharedBlocks * blockSize ≤ q)
    (hq : seq.kvState.kvCacheTokensNum ≤ q ∨ q ∈ pending)
    (hb : seq.kvState.blocks[q / blockSize]? = some b) : alone b.id := by
  refine (h.own _ b ((Nat.le_div_iff_mul_le hpos).mpr hshared) hb).resolve_right fun hc => ?_
  obtain ⟨hlt, hnot, -⟩ := hc (q % blockSize) (Nat.mod_lt _ hpos)
  rw [Nat.mul_comm, Nat.div_add_mod] at hlt hnot
  exact hq.elim (fun hle => absurd hlt (Nat.not_lt_of_le hle)) hnot

theorem changed (h : seq.Tracked content blockSize alone pending) (hpos : 0 < blockSize)
    (hrewrites : seq.Rewrites content blockSize start stop)
    (hstart : ∀ q, start ≤ q → q < stop →
      seq.kvState.kvCacheTokensNum ≤ q ∨ q ∈ pending)
    (hne : seq.write content blockSize start stop id r ≠ content id r) :
    ∃ q b, start ≤ q ∧ q < stop ∧ seq.kvState.blocks[q / blockSize]? = some b ∧ b.id = id ∧
      q % blockSize = r ∧ alone id := by
  rcases seq.write_cases content blockSize start stop id r with hsame | hwritten
  · exact absurd hsame hne
  · obtain ⟨q, b, hle, hlt, hb, rfl, rfl, hvalue⟩ := hwritten
    have hshared : seq.kvState.numOwnedSharedBlocks * blockSize ≤ q := by
      by_contra hbelow
      have hsame := hrewrites q (List.mem_range'_1.mpr ⟨hle, by omega⟩) (by omega) b hb
      exact hne (hvalue.trans hsame.symm)
    exact ⟨q, b, hle, hlt, hb, rfl, rfl, h.alone_of_uncounted hpos hshared (hstart q hle hlt) hb⟩

theorem write (h : seq.Tracked content blockSize alone pending) (hpos : 0 < blockSize)
    (honly : Only seq alone) (hle : seq.kvState.kvCacheTokensNum ≤ stop)
    (hrewrites : seq.Rewrites content blockSize seq.kvState.kvCacheTokensNum stop) :
    Tracked { seq with kvState := { seq.kvState with kvCacheTokensNum := stop } }
      (seq.write content blockSize seq.kvState.kvCacheTokensNum stop) blockSize alone
      (seq.leave pending blockSize seq.kvState.kvCacheTokensNum stop) := by
  -- a counted position is not written again
  have hkept : ∀ (j : Nat) b r, seq.kvState.blocks[j]? = some b → r < blockSize →
      j * blockSize + r < seq.kvState.kvCacheTokensNum →
      seq.write content blockSize seq.kvState.kvCacheTokensNum stop b.id r = content b.id r := by
    intro j b r hb hr hlt
    by_contra hne
    obtain ⟨q, c, hq, -, hc, hid, rfl, halone⟩ :=
      h.changed hpos hrewrites (fun q hq _ => .inl hq) hne
    have hj := honly _ j c b hc (hid ▸ halone) hb hid.symm
    rw [hj, Nat.mul_comm, Nat.div_add_mod] at hlt
    omega
  have hnot : ∀ q, q < seq.kvState.kvCacheTokensNum → q ∉ pending →
      q ∉ seq.leave pending blockSize seq.kvState.kvCacheTokensNum stop := by
    intro q hlt hnot hmem
    rcases mem_leave.mp hmem with ⟨hmem, -⟩ | ⟨hle, -⟩
    · exact hnot hmem
    · omega
  refine ⟨fun j b hj hb => (h.own j b hj hb).imp_right fun hc r hr => ?_,
    fun q b hq hlt hmem hb => ?_, fun q hq hlt hnone => ?_⟩
  · obtain ⟨hlt, hpending, hcontent⟩ := hc r hr
    exact ⟨Nat.lt_of_lt_of_le hlt hle, hnot _ hlt hpending,
      (hkept j b r hb hr hlt).trans hcontent⟩
  · by_cases hcounted : q < seq.kvState.kvCacheTokensNum
    · have hold : q ∉ pending := fun hpending =>
        hmem (mem_leave.mpr (.inl ⟨hpending, .inl hcounted⟩))
      have hplace : q / blockSize * blockSize + q % blockSize = q := by
        rw [Nat.mul_comm, Nat.div_add_mod]
      rw [hkept (q / blockSize) b _ hb (Nat.mod_lt _ hpos) (by rw [hplace]; exact hcounted)]
      exact h.holds q b hq hcounted hold hb
    · have halone := h.alone_of_uncounted hpos hq (.inl (Nat.le_of_not_lt hcounted)) hb
      exact write_eq (Nat.le_of_not_lt hcounted) hlt hb fun j c hc hid =>
        honly _ j b c hb halone hc hid
  · rw [mem_leave]
    by_cases hcounted : q < seq.kvState.kvCacheTokensNum
    · exact .inl ⟨h.late q hq hcounted hnone, .inl hcounted⟩
    · exact .inr ⟨Nat.le_of_not_lt hcounted, hlt, hnone⟩

theorem shrink (h : seq.Tracked content blockSize alone pending)
    (hle : seq.numTokens ≤ seq.kvState.kvCacheTokensNum) :
    Tracked { seq with kvState := { seq.kvState with kvCacheTokensNum := seq.numTokens } } content
      blockSize alone pending := by
  refine ⟨fun j b hj hb => (h.own j b hj hb).imp_right fun hc r hr => ?_,
    fun q b hq hlt => h.holds q b hq (Nat.lt_of_lt_of_le hlt hle),
    fun q hq hlt => h.late q hq (Nat.lt_of_lt_of_le hlt hle)⟩
  obtain ⟨token, -, hnum, -⟩ := h.exists_token hj hc hr
  exact ⟨hnum, (hc r hr).2⟩

theorem setToken (h : seq.Tracked content blockSize alone pending) {index numTokens : Nat}
    (hindex : seq.kvState.kvCacheTokensNum ≤ index)
    (hnum : seq.numTokens ≤ numTokens) (hcounted : seq.numTokens < numTokens →
      seq.kvState.kvCacheTokensNum ≤ seq.numTokens) (token : Token) :
    Tracked { seq with
      numTokens := numTokens
      tokenBuffer := seq.tokenBuffer.set index token } content blockSize alone pending := by
  have hknown : ∀ q, q < seq.kvState.kvCacheTokensNum → known { seq with
      numTokens := numTokens
      tokenBuffer := seq.tokenBuffer.set index token } q = seq.known q := by
    intro q hq
    rw [known, known]
    simp only
    rw [getElem?_set_ne (by omega)]
    by_cases hless : seq.numTokens < numTokens
    · have hle := hcounted hless
      rw [if_pos (by omega), if_pos (by omega)]
    · rw [show numTokens = seq.numTokens by omega]
  refine ⟨fun j b hj hb => (h.own j b hj hb).imp_right fun hc r hr => ?_,
    fun q b hq hlt hnot hb => ?_, fun q hq hlt hnone => ?_⟩
  · obtain ⟨hlt, hnot, hcontent⟩ := hc r hr
    exact ⟨hlt, hnot, hcontent.trans (hknown _ hlt).symm⟩
  · exact (h.holds q b hq hlt hnot hb).trans (hknown q hlt).symm
  · rw [hknown q hlt] at hnone
    exact h.late q hq hlt hnone

theorem load (h : seq.Tracked content blockSize alone pending) {stop : Nat}
    (hle : seq.kvState.kvCacheTokensNum ≤ stop) :
    Tracked { seq with kvState := { seq.kvState with kvCacheTokensNum := stop } } content blockSize
      alone (pending.filter (fun q => q < seq.kvState.kvCacheTokensNum) ++
        List.range' seq.kvState.kvCacheTokensNum (stop - seq.kvState.kvCacheTokensNum)) := by
  have hmem : ∀ q, q ∈ pending.filter (fun q => q < seq.kvState.kvCacheTokensNum) ++
      List.range' seq.kvState.kvCacheTokensNum (stop - seq.kvState.kvCacheTokensNum) ↔
      q ∈ pending ∧ q < seq.kvState.kvCacheTokensNum ∨
        seq.kvState.kvCacheTokensNum ≤ q ∧ q < stop := by
    intro q
    rw [mem_append, List.mem_filter, mem_range'_1, decide_eq_true_iff,
      Nat.add_sub_cancel' hle]
  refine ⟨fun j b hj hb => (h.own j b hj hb).imp_right fun hc r hr => ?_,
    fun q b hq hlt hnot hb => ?_, fun q hq hlt hnone => ?_⟩
  · obtain ⟨hlt, hnot, hcontent⟩ := hc r hr
    refine ⟨Nat.lt_of_lt_of_le hlt hle, fun hp => ?_, hcontent⟩
    rcases (hmem _).mp hp with ⟨hp, -⟩ | ⟨hge, -⟩
    · exact hnot hp
    · omega
  · by_cases hcounted : q < seq.kvState.kvCacheTokensNum
    · exact h.holds q b hq hcounted (fun hp => hnot ((hmem q).mpr (.inl ⟨hp, hcounted⟩))) hb
    · exact absurd ((hmem q).mpr (.inr ⟨Nat.le_of_not_lt hcounted, hlt⟩)) hnot
  · refine (hmem q).mpr ?_
    by_cases hcounted : q < seq.kvState.kvCacheTokensNum
    · exact .inl ⟨h.late q hq hcounted hnone, hcounted⟩
    · exact .inr ⟨Nat.le_of_not_lt hcounted, hlt⟩

/-- A batch has computed the position of a placeholder; now its token is known. -/
theorem resolve (h : seq.Tracked content blockSize alone pending) (hpos : 0 < blockSize)
    (honly : Only seq alone) {index : Nat} (hcounted : index < seq.kvState.kvCacheTokensNum)
    (hnone : seq.known index = none)
    (hshared : seq.kvState.numOwnedSharedBlocks * blockSize ≤ index) (token : Token) :
    (∀ id r, (seq.updateToken index token).write content blockSize index (index + 1) id r ≠
      content id r → alone id ∧ ∃ b ∈ seq.kvState.blocks, b.id = id) ∧
    Tracked (seq.updateToken index token)
      ((seq.updateToken index token).write content blockSize index (index + 1)) blockSize alone
      ((seq.updateToken index token).leave pending blockSize index (index + 1)) := by
  have hpending := h.late index hshared hcounted (.inl hnone)
  have hknown : ∀ q, q ≠ index → (seq.updateToken index token).known q = seq.known q := by
    intro q hq
    rw [known]
    simp only [updateToken]
    rw [getElem?_set_ne (Ne.symm hq)]
    rfl
  have hchanged : ∀ id r, (seq.updateToken index token).write content blockSize index (index + 1)
      id r ≠ content id r → ∃ b, seq.kvState.blocks[index / blockSize]? = some b ∧ b.id = id ∧
        index % blockSize = r ∧ alone id := by
    intro id r hne
    rcases (seq.updateToken index token).write_cases content blockSize index (index + 1) id r with
      hsame | ⟨q, b, hle, hlt, hb, rfl, hr, -⟩
    · exact absurd hsame hne
    · obtain rfl : q = index := by omega
      exact ⟨b, hb, rfl, hr, h.alone_of_uncounted hpos hshared (.inr hpending) hb⟩
  -- the other positions keep what they hold
  have hkept : ∀ (j : Nat) b r, seq.kvState.blocks[j]? = some b → j * blockSize + r ≠ index →
      (seq.updateToken index token).write content blockSize index (index + 1) b.id r =
        content b.id r := by
    intro j b r hb hne
    by_contra hchange
    obtain ⟨c, hc, hid, hmod, halone⟩ := hchanged b.id r hchange
    have hj := honly _ j c b hc (hid ▸ halone) hb hid.symm
    rw [hj, ← hmod, Nat.mul_comm, Nat.div_add_mod] at hne
    exact hne rfl
  refine ⟨fun id r hne => ?_, fun j b hj hb => (h.own j b hj hb).imp_right fun hc r hr => ?_,
    fun q b hq hlt hnot hb => ?_, fun q hq hlt hlate => mem_leave.mpr ?_⟩
  · obtain ⟨b, hb, hid, -, halone⟩ := hchanged id r hne
    exact ⟨halone, b, mem_of_getElem? hb, hid⟩
  · obtain ⟨hlt, hnot, hcontent⟩ := hc r hr
    have hne : j * blockSize + r ≠ index := fun he => hnot (he ▸ hpending)
    refine ⟨hlt, fun hmem => ?_, ?_⟩
    · rcases mem_leave.mp hmem with ⟨hmem, -⟩ | ⟨hle, hless, -⟩
      · exact hnot hmem
      · omega
    · rw [hkept j b r hb hne, hknown _ hne]
      exact hcontent
  · by_cases heq : q = index
    · subst heq
      refine write_eq (Nat.le_refl q) (Nat.lt_succ_self q) hb fun j c hc hid => ?_
      exact honly _ j b c hb (h.alone_of_uncounted hpos hshared (.inr hpending) hb) hc hid
    · have hold : q ∉ pending := fun hp => hnot (mem_leave.mpr (.inl ⟨hp, by omega⟩))
      have hplace : q / blockSize * blockSize + q % blockSize = q := by
        rw [Nat.mul_comm, Nat.div_add_mod]
      rw [hkept (q / blockSize) b _ hb (by rw [hplace]; exact heq), hknown q heq]
      exact h.holds q b hq hlt hold hb
  · by_cases heq : q = index
    · subst heq
      exact .inr ⟨Nat.le_refl q, Nat.lt_succ_self q, hlate⟩
    · rw [hknown q heq] at hlate
      exact .inl ⟨h.late q hq hlt hlate, by omega⟩

theorem transfer (h : seq.Tracked content blockSize alone pending) (hpos : 0 < blockSize)
    (honly : Only seq alone) {first : Nat} {ids : List Int} {tokens : List Token}
    (hexpects : ∀ j < ids.length, ∃ id ∈ ids[j]?, seq.Expects blockSize pending (first + j) id
      (ContentState.tokensOf tokens blockSize j)) :
    (∀ id ∈ ids, alone id ∧ ∃ b ∈ seq.kvState.blocks, b.id = id) ∧
    Tracked seq (fun id r => match ids.idxOf? id with
      | some j => (ContentState.tokensOf tokens blockSize j)[r]?
      | none => content id r) blockSize alone (pending.filter fun q =>
        q < first * blockSize ∨ (first + ids.length) * blockSize ≤ q) := by
  -- every id of the transfer is the id of a block that nobody else holds
  have hblock : ∀ (j : Nat) id, ids[j]? = some id → alone id ∧
      (∃ b, seq.kvState.blocks[first + j]? = some b ∧ b.id = id) ∧
      seq.Expects blockSize pending (first + j) id (ContentState.tokensOf tokens blockSize j) := by
    intro j id hid
    obtain ⟨id', hid', hexpected⟩ := hexpects j (List.getElem?_eq_some_iff.mp hid).1
    obtain rfl : id' = id := Option.some.inj (hid'.symm.trans hid)
    have hwaits := hexpected
    obtain ⟨hmap, hshared, ⟨q, hq, hle, hlt, -⟩, -⟩ := hwaits
    obtain ⟨b, hb, rfl⟩ := Option.map_eq_some_iff.mp hmap
    have hdiv : q / blockSize = first + j := Nat.div_eq_of_lt_le hle hlt
    refine ⟨?_, ⟨b, hb, rfl⟩, hexpected⟩
    refine h.alone_of_uncounted hpos ((Nat.mul_le_mul_right _ hshared).trans hle) (.inr hq) ?_
    rw [hdiv]
    exact hb
  have hindex : ∀ (j k : Nat) id, ids[j]? = some id → ids[k]? = some id → j = k := by
    intro j k id hj hk
    obtain ⟨halone, ⟨b, hb, hbid⟩, -⟩ := hblock j id hj
    obtain ⟨-, ⟨c, hc, hcid⟩, -⟩ := hblock k id hk
    have hsame := honly _ _ b c hb (hbid.symm ▸ halone) hc (hcid.trans hbid.symm)
    omega
  have hfind : ∀ (j : Nat) id, ids[j]? = some id → ids.idxOf? id = some j := by
    intro j id hj
    obtain ⟨hlt, heq⟩ := List.getElem?_eq_some_iff.mp hj
    refine List.idxOf?_eq_some_iff.mpr ⟨hlt, heq, fun k hk heq' => ?_⟩
    have hkj := hindex k j id (List.getElem?_eq_some_iff.mpr ⟨Nat.lt_trans hk hlt, heq'⟩) hj
    omega
  -- blocks from elsewhere in the sequence have other ids
  have hother : ∀ (j : Nat) b, seq.kvState.blocks[j]? = some b →
      (j < first ∨ first + ids.length ≤ j) → ids.idxOf? b.id = none := by
    intro j b hb hout
    rw [idxOf?_eq_none_iff]
    intro hmem
    obtain ⟨k, hk⟩ := getElem?_of_mem hmem
    obtain ⟨halone, ⟨c, hc, hcid⟩, -⟩ := hblock k b.id hk
    have hsame := honly _ _ c b hc (hcid.symm ▸ halone) hb hcid.symm
    have hlt := (List.getElem?_eq_some_iff.mp hk).1
    omega
  have hrange : ∀ q, q < first * blockSize ∨ (first + ids.length) * blockSize ≤ q ↔
      q / blockSize < first ∨ first + ids.length ≤ q / blockSize := by
    intro q
    rw [Nat.div_lt_iff_lt_mul hpos, Nat.le_div_iff_mul_le hpos]
  refine ⟨fun id hid => ?_, fun j b hj hb => (h.own j b hj hb).imp_right fun hc r hr => ?_,
    fun q b hq hlt hnot hb => ?_, fun q hq hlt hlate => ?_⟩
  · obtain ⟨j, hj⟩ := getElem?_of_mem hid
    obtain ⟨halone, ⟨b, hb, hbid⟩, -⟩ := hblock j id hj
    exact ⟨halone, b, mem_of_getElem? hb, hbid⟩
  · obtain ⟨hlt, hpending, hcontent⟩ := hc r hr
    have hout : j < first ∨ first + ids.length ≤ j := by
      by_contra hin
      push Not at hin
      obtain ⟨id, hid, -, -, ⟨q, hq, hle, hless, -⟩, -⟩ := hexpects (j - first) (by omega)
      rw [Nat.add_sub_cancel' hin.1] at hle hless
      rw [Nat.succ_mul] at hless
      obtain ⟨-, hwaits, -⟩ := hc (q - j * blockSize) (by omega)
      rw [Nat.add_sub_cancel' hle] at hwaits
      exact hwaits hq
    refine ⟨hlt, fun hmem => hpending (List.mem_filter.mp hmem).1, ?_⟩
    simp only [hother j b hb hout]
    exact hcontent
  · by_cases hout : q / blockSize < first ∨ first + ids.length ≤ q / blockSize
    · simp only [hother _ b hb hout]
      refine h.holds q b hq hlt (fun hp => hnot ?_) hb
      exact List.mem_filter.mpr ⟨hp, decide_eq_true ((hrange q).mpr hout)⟩
    · push Not at hout
      obtain ⟨id, hid, hexpected⟩ := hexpects (q / blockSize - first) (by omega)
      obtain ⟨-, ⟨c, hc, hcid⟩, -⟩ := hblock _ id hid
      rw [Nat.add_sub_cancel' hout.1] at hc hexpected
      obtain rfl := Option.some.inj (hc.symm.trans hb)
      simp only [hcid, hfind _ id hid]
      have hplace : q / blockSize * blockSize + q % blockSize = q := by
        rw [Nat.mul_comm, Nat.div_add_mod]
      have htoken := (hexpected.2.2.2 (q % blockSize) (Nat.mod_lt _ hpos)
        (by rw [hplace]; exact hlt)).2
      rw [hplace] at htoken
      exact htoken
  · by_cases hout : q / blockSize < first ∨ first + ids.length ≤ q / blockSize
    · exact List.mem_filter.mpr
        ⟨h.late q hq hlt hlate, decide_eq_true ((hrange q).mpr hout)⟩
    · push Not at hout
      obtain ⟨id, hid, hexpected⟩ := hexpects (q / blockSize - first) (by omega)
      obtain ⟨-, ⟨c, hc, -⟩, -⟩ := hblock _ id hid
      rw [Nat.add_sub_cancel' hout.1] at hc hexpected
      have hplace : q / blockSize * blockSize + q % blockSize = q := by
        rw [Nat.mul_comm, Nat.div_add_mod]
      have hknown := (hexpected.2.2.2 (q % blockSize) (Nat.mod_lt _ hpos)
        (by rw [hplace]; exact hlt)).1
      rw [hplace] at hknown
      rcases hlate with hnone | hnone
      · exact absurd hnone hknown
      · rw [hc] at hnone
        cases hnone

end Tracked

end Sequence

namespace PoolState

variable {st : PoolState} {options : Options} {seq : Sequence} {i : Nat}

def Alone (st : PoolState) (id : Int) : Prop :=
  st.rank.blockManager.cachedIds.count id +
    ((deviceHandles st.sequences).map Handle.id).count id = 1

/-- The handles of a block are those of one sequence and those of the others. -/
theorem Inv.count_eq (h : Inv options st) (hsrc : ∀ seq ∈ st.sequences, seq.kvState.srcBlocks = [])
    (hi : st.sequences[i]? = some seq) (id : Int) :
    ((deviceHandles st.sequences).map Handle.id).count id =
      (seq.kvState.blocks.map Block.id).count id + ((st.others i).map Handle.id).count id := by
  have hmem := mem_of_getElem? hi
  have hsplit : deviceHandles st.sequences = seq.kvState.handles + st.others i := by
    rw [deviceHandles, sum_map_eraseIdx hi]
    rfl
  rw [hsplit, KVCacheState.handles, hsrc seq hmem, handles_nil, add_zero, Multiset.map_add,
    count_add, map_id_handles fun b hb => (h.blocks seq hmem b hb).1, coe_count]

theorem Inv.alone_iff (h : Inv options st) (hsrc : ∀ seq ∈ st.sequences, seq.kvState.srcBlocks = [])
    (hi : st.sequences[i]? = some seq) (id : Int) :
    Serving.Alone ⟨st.rank, seq⟩ (st.others i) id ↔ st.Alone id := by
  rw [Serving.Alone, Serving.holders, Alone, h.count_eq hsrc hi, Nat.add_assoc]

end PoolState

namespace ContentState

variable {g : ContentState} {options : Options} {i : Nat} {seq : Sequence}

/-- The invariant of a run in the right order. -/
structure Inv (options : Options) (g : ContentState) : Prop where
  inv : PoolState.Inv options g.pool
  src_nil : ∀ seq ∈ g.pool.sequences, seq.kvState.srcBlocks = []
  entries_nil : options.enablePrefixCache = false →
    g.pool.rank.blockManager.prefixCache.entries = []
  produced : ∀ b ∈ g.pool.rank.blockManager.prefixCache.entries,
    Produced g.content options.blockSize b
  tracked : ∀ i (seq : Sequence), g.pool.sequences[i]? = some seq →
    seq.Tracked g.content options.blockSize g.pool.Alone (g.pending i)

namespace Inv

theorem blockSize_eq (h : g.Inv options) : g.blockSize = options.blockSize := by
  rw [blockSize, h.inv.options_eq]

theorem blockSize_pos (h : g.Inv options) : 0 < options.blockSize := by
  rw [← h.inv.options_eq]
  exact h.inv.device.blockSize_pos

theorem stocked (h : g.Inv options) (hi : g.pool.sequences[i]? = some seq) :
    Serving.Stocked options g.content (g.pending i) (g.pool.others i) (g.pool.hostOthers i)
      ⟨g.pool.rank, seq⟩ where
  toBeamless := ⟨h.inv.good hi, h.src_nil seq (mem_of_getElem? hi), h.entries_nil⟩
  produced := h.produced
  tracked := (h.tracked i seq hi).mono fun b _ => (h.inv.alone_iff h.src_nil hi b.id).mpr

theorem count_others_pos (h : g.Inv options) {k : Nat} {other : Sequence} {b : Block} (hki : k ≠ i)
    (hk : g.pool.sequences[k]? = some other) (hb : b ∈ other.kvState.blocks) :
    0 < ((g.pool.others i).map Handle.id).count b.id := by
  have hmem : other ∈ g.pool.sequences.eraseIdx i :=
    mem_eraseIdx_iff_getElem?.mpr ⟨k, hki, hk⟩
  obtain ⟨j, hj⟩ := getElem?_of_mem hmem
  have hsplit : g.pool.others i = other.kvState.handles +
      ((g.pool.sequences.eraseIdx i).eraseIdx j |>.map fun seq => seq.kvState.handles).sum :=
    PoolState.sum_map_eraseIdx hj
  have hvalid := h.inv.blocks other (mem_of_getElem? hk)
  rw [hsplit, KVCacheState.handles, Multiset.map_add, Multiset.map_add, count_add,
    count_add, map_id_handles fun b hb => (hvalid b hb).1, coe_count]
  have hpos := Serving.count_pos_of_mem hb
  omega

theorem set (h : g.Inv options) (hi : g.pool.sequences[i]? = some seq) {q : Serving}
    {pending : List Nat}
    (hq : q.Stocked options g.content pending (g.pool.others i) (g.pool.hostOthers i))
    (hspares : Serving.Spares ⟨g.pool.rank, seq⟩ (g.pool.others i) q (g.pool.others i)) :
    Inv options { g with
      pool := ⟨q.rank, g.pool.sequences.set i q.sequence⟩
      pending := update g.pending i pending } := by
  have hlt := (List.getElem?_eq_some_iff.mp hi).1
  have hinv := h.inv.set hi hq.toGood
  have hsrc : ∀ s ∈ g.pool.sequences.set i q.sequence, s.kvState.srcBlocks = [] := by
    intro s hs
    rcases mem_or_eq_of_mem_set hs with hs | rfl
    · exact h.src_nil s hs
    · exact hq.src_nil
  have hself : (g.pool.sequences.set i q.sequence)[i]? = some q.sequence :=
    getElem?_set_self hlt
  have hothers : PoolState.others ⟨q.rank, g.pool.sequences.set i q.sequence⟩ i =
      g.pool.others i := by
    rw [PoolState.others, PoolState.others, eraseIdx_set_eq]
  have halone : ∀ id, q.Alone (g.pool.others i) id ↔
      PoolState.Alone ⟨q.rank, g.pool.sequences.set i q.sequence⟩ id := by
    intro id
    rw [← hothers]
    exact hinv.alone_iff hsrc hself id
  refine ⟨hinv, hsrc, hq.entries_nil, hq.produced, fun k s hk => ?_⟩
  by_cases hki : k = i
  · subst hki
    rw [hself] at hk
    obtain rfl := Option.some.inj hk
    simp only [update_self]
    exact hq.tracked.mono fun b _ => (halone b.id).mp
  · simp only at hk
    rw [getElem?_set_ne (Ne.symm hki)] at hk
    simp only [update_of_ne hki]
    refine (h.tracked k s hk).mono fun b hb hone => (halone b.id).mp ?_
    exact hspares b.id (h.count_others_pos hki hk hb) ((h.inv.alone_iff h.src_nil hi b.id).mpr hone)

theorem serve (h : g.Inv options) {f : Serving → Except Check Serving}
    (hf : ∀ seq, g.pool.sequences[i]? = some seq → IfOk (f ⟨g.pool.rank, seq⟩)
      (fun q => q.Stocked options g.content (g.pending i) (g.pool.others i)
          (g.pool.hostOthers i) ∧
        Serving.Spares ⟨g.pool.rank, seq⟩ (g.pool.others i) q (g.pool.others i))) :
    IfOk (g.pool.serve i f) (fun pool => Inv options { g with pool := pool }) := by
  rw [PoolState.serve]
  split
  · exact h
  · rename_i seq hi
    refine (hf seq hi).bind fun q hq => ?_
    have hinv := h.set hi hq.1 hq.2
    rw [update_eq_self] at hinv
    exact hinv

theorem setContent (h : g.Inv options) (hi : g.pool.sequences[i]? = some seq) {seq' : Sequence}
    {content : Content} {pending : List Nat} (hblocks : seq'.kvState.blocks = seq.kvState.blocks)
    (hsrc : seq'.kvState.srcBlocks = seq.kvState.srcBlocks)
    (hhost : seq'.hostKvState = seq.hostKvState)
    (hchanged : ∀ id r, content id r ≠ g.content id r →
      g.pool.Alone id ∧ ∃ b ∈ seq.kvState.blocks, b.id = id)
    (htracked : seq'.Tracked content options.blockSize g.pool.Alone pending) :
    Inv options
      { pool := ⟨g.pool.rank, g.pool.sequences.set i seq'⟩
        content := content
        pending := update g.pending i pending } := by
  have hmem := mem_of_getElem? hi
  have hlt := (List.getElem?_eq_some_iff.mp hi).1
  have hgood := PoolState.good_setSequence (h.inv.good hi) hblocks hsrc hhost
  have hinv := h.inv.set hi hgood
  have hsame : PoolState.deviceHandles (g.pool.sequences.set i seq') =
      PoolState.deviceHandles g.pool.sequences := by
    rw [PoolState.deviceHandles, PoolState.sum_map_set hi, PoolState.deviceHandles,
      PoolState.sum_map_eraseIdx hi, KVCacheState.handles, KVCacheState.handles, hblocks, hsrc]
  have halone : PoolState.Alone ⟨g.pool.rank, g.pool.sequences.set i seq'⟩ = g.pool.Alone := by
    funext id
    rw [PoolState.Alone, PoolState.Alone, hsame]
  -- a changed block has no handle but the one of this sequence
  have hkept : ∀ b : Block, (0 < g.pool.rank.blockManager.cachedIds.count b.id ∨
      0 < ((g.pool.others i).map Handle.id).count b.id) →
      ∀ r, content b.id r = g.content b.id r := by
    intro b hheld r
    by_contra hne
    obtain ⟨hone, c, hc, hid⟩ := hchanged b.id r hne
    have hpos := Serving.count_pos_of_mem hc
    rw [PoolState.Alone, h.inv.count_eq h.src_nil hi] at hone
    rw [hid] at hpos
    omega
  refine ⟨hinv, fun s hs => ?_, h.entries_nil, fun b hb => ?_, fun k s hk => ?_⟩
  · rcases mem_or_eq_of_mem_set hs with hs | rfl
    · exact h.src_nil s hs
    · exact hsrc.trans (h.src_nil seq hmem)
  · obtain ⟨n, hlen, hprod⟩ := h.produced b hb
    refine ⟨n, hlen, fun r hr => ?_⟩
    simp only
    rw [hkept b (.inl (Serving.count_pos_of_mem hb)) r]
    exact hprod r hr
  · simp only at hk ⊢
    rw [halone]
    by_cases hki : k = i
    · subst hki
      rw [getElem?_set_self hlt] at hk
      obtain rfl := Option.some.inj hk
      rw [update_self]
      exact htracked
    · rw [getElem?_set_ne (Ne.symm hki)] at hk
      rw [update_of_ne hki]
      have hold := h.tracked k s hk
      have hsblock : ∀ b ∈ s.kvState.blocks, ∀ r, content b.id r = g.content b.id r :=
        fun b hb => hkept b (.inr (h.count_others_pos hki hk hb))
      refine ⟨fun j b hj hb => (hold.own j b hj hb).imp_right fun hc r hr => ?_,
        fun q b hq hcount hnot hb => ?_, hold.late⟩
      · rw [hsblock b (mem_of_getElem? hb)]
        exact hc r hr
      · rw [hsblock b (mem_of_getElem? hb)]
        exact hold.holds q b hq hcount hnot hb

theorem only (h : g.Inv options) (hi : g.pool.sequences[i]? = some seq) :
    Sequence.Tracked.Only seq g.pool.Alone := by
  intro j k b c hj hone hk hid
  rw [PoolState.Alone, h.inv.count_eq h.src_nil hi] at hone
  exact Serving.index_eq_of_count hk hj hid (by omega)

theorem arrive (h : g.Inv options) (hkv : seq.kvState = {}) (hhost : seq.hostKvState = {}) :
    Inv options { g with
      pool := { g.pool with sequences := g.pool.sequences ++ [seq] } } := by
  have hsame : PoolState.deviceHandles (g.pool.sequences ++ [seq]) =
      PoolState.deviceHandles g.pool.sequences := by
    simp [PoolState.deviceHandles, hkv, KVCacheState.handles]
  have halone : PoolState.Alone { g.pool with sequences := g.pool.sequences ++ [seq] } =
      g.pool.Alone := by
    funext id
    rw [PoolState.Alone, PoolState.Alone, hsame]
  refine ⟨h.inv.arrive hkv hhost, fun s hs => ?_, h.entries_nil, h.produced, fun k s hk => ?_⟩
  · rcases List.mem_append.mp hs with hs | hs
    · exact h.src_nil s hs
    · rw [List.mem_singleton.mp hs, hkv]
  · simp only at hk ⊢
    rw [halone]
    by_cases hlt : k < g.pool.sequences.length
    · rw [getElem?_append_left hlt] at hk
      exact h.tracked k s hk
    · rw [getElem?_append_right (Nat.le_of_not_lt hlt)] at hk
      rw [List.mem_singleton.mp (mem_of_getElem? hk)]
      exact .of_nil (by rw [hkv]) (by rw [hkv])

section

variable [XXH3]

theorem forward (h : g.Inv options) (hi : g.pool.sequences[i]? = some seq)
    (allowedMaxTokens cpSize : Nat) (isPrefill : Bool)
    (hop : g.Timely (.serve (.forward i allowedMaxTokens cpSize isPrefill))) :
    IfOk (g.pool.step (.forward i allowedMaxTokens cpSize isPrefill))
      (fun pool => Inv options (g.write i seq seq.kvState.kvCacheTokensNum
        (seq.kvState.kvCacheTokensNum + (seq.querySeqLen allowedMaxTokens cpSize isPrefill).2)
        pool)) := by
  have hrewrites := hop seq hi
  rw [h.blockSize_eq] at hrewrites
  rw [PoolState.step, PoolState.serve, hi]
  have hcontract : Ensures (seq.processSingleSequence allowedMaxTokens cpSize isPrefill) _ _ :=
    Sequence.processSingleSequence_ensures allowedMaxTokens cpSize isPrefill
  have hprocess := hcontract.ifOk.mono_post fun r hr => hr.2
  refine Ensures.bind (Q := fun p => p = ⟨g.pool.rank, { seq with kvState := { seq.kvState with
    kvCacheTokensNum := seq.kvState.kvCacheTokensNum +
      (seq.querySeqLen allowedMaxTokens cpSize isPrefill).2 } }⟩) ?_ ?_
  · refine hprocess.bind fun r hr => ?_
    simp only [hr]
    exact rfl
  · rintro _ rfl
    unfold ContentState.write
    rw [h.blockSize_eq]
    refine h.setContent hi rfl rfl rfl (fun id r hne => ?_) ?_
    · obtain ⟨q, b, -, -, hb, hid, -, hone⟩ := (h.tracked i seq hi).changed h.blockSize_pos
        hrewrites (fun q hq _ => .inl hq) hne
      exact ⟨hone, b, mem_of_getElem? hb, hid⟩
    · exact (h.tracked i seq hi).write h.blockSize_pos (h.only hi) (Nat.le_add_right _ _) hrewrites

theorem appendToken (h : g.Inv options) (hi : g.pool.sequences[i]? = some seq) (token : Token)
    (hop : g.Timely (.serve (.appendToken i token))) : IfOk (g.pool.step (.appendToken i token))
      (fun pool => Inv options
        (g.write i seq seq.kvState.kvCacheTokensNum seq.numTokens pool)) := by
  have hrewrites := hop seq hi
  rw [h.blockSize_eq] at hrewrites
  rw [PoolState.step, PoolState.serve, hi]
  refine Ensures.bind (Q := fun p => p = ⟨g.pool.rank, { seq with
    numTokens := seq.numTokens + 1
    kvState := seq.kvState.setKvCacheTokensNum seq.numTokens
    tokenBuffer := seq.tokenBuffer.set seq.numTokens token }⟩) ?_ ?_
  · simp only [Sequence.appendToken]
    split
    · exact rfl
    · exact trivial
  · rintro _ rfl
    unfold ContentState.write
    rw [h.blockSize_eq]
    have htracked := h.tracked i seq hi
    refine h.setContent hi rfl rfl rfl (fun id r hne => ?_) ?_
    · obtain ⟨q, b, -, -, hb, hid, -, hone⟩ := htracked.changed h.blockSize_pos
        hrewrites (fun q hq _ => .inl hq) hne
      exact ⟨hone, b, mem_of_getElem? hb, hid⟩
    · by_cases hle : seq.kvState.kvCacheTokensNum ≤ seq.numTokens
      · have hwritten := htracked.write h.blockSize_pos (h.only hi) hle hrewrites
        exact hwritten.setToken (Nat.le_refl _) (Nat.le_succ _) (fun _ => Nat.le_refl _) token
      · -- padding is not counted any more, and nothing is written
        have hempty : List.range' seq.kvState.kvCacheTokensNum
            (seq.numTokens - seq.kvState.kvCacheTokensNum) = [] := by
          rw [show seq.numTokens - seq.kvState.kvCacheTokensNum = 0 by omega, range'_zero]
        have hwrite : seq.write g.content options.blockSize seq.kvState.kvCacheTokensNum
            seq.numTokens = g.content := by
          funext id r
          rw [Sequence.write, Sequence.positionAt, hempty, find?_nil]
        have hleave : seq.leave (g.pending i) options.blockSize seq.kvState.kvCacheTokensNum
            seq.numTokens = g.pending i := by
          rw [Sequence.leave, hempty, filter_nil, append_nil]
          refine List.filter_eq_self.mpr fun q _ => decide_eq_true ?_
          omega
        rw [hwrite, hleave]
        have hshrunk := htracked.shrink (by omega)
        exact hshrunk.setToken (Nat.le_refl _) (Nat.le_succ _) (fun _ => Nat.le_refl _) token

theorem updateToken (h : g.Inv options) (i index : Nat) (token : Token)
    (hop : g.Timely (.serve (.updateToken i index token))) :
    IfOk (g.serve (.updateToken i index token)) (Inv options) := by
  rw [ContentState.serve]
  split
  · exact h
  · rename_i seq hi
    have hstep : g.pool.step (.updateToken i index token) = .ok ⟨g.pool.rank,
        g.pool.sequences.set i (seq.updateToken index token)⟩ := by
      rw [PoolState.step, PoolState.serve, hi]
      rfl
    rw [hstep]
    have htracked := h.tracked i seq hi
    refine Ensures.bind (Q := fun pool => pool = ⟨g.pool.rank,
      g.pool.sequences.set i (seq.updateToken index token)⟩) (by exact rfl) ?_
    rintro _ rfl
    by_cases hcounted : index < seq.kvState.kvCacheTokensNum
    · obtain ⟨hnone, hshared⟩ := hop seq hi hcounted
      rw [h.blockSize_eq] at hshared
      rw [if_pos hcounted, if_pos hnone]
      unfold ContentState.write
      rw [h.blockSize_eq]
      obtain ⟨hchanged, hresolved⟩ := htracked.resolve h.blockSize_pos (h.only hi) hcounted hnone
        hshared token
      exact h.setContent hi rfl rfl rfl hchanged hresolved
    · rw [if_neg hcounted]
      have hset := htracked.setToken (Nat.le_of_not_lt hcounted) (Nat.le_refl _)
        (fun hlt => absurd hlt (Nat.lt_irrefl _)) token
      have hunchanged : ∀ id r, g.content id r ≠ g.content id r →
          g.pool.Alone id ∧ ∃ b ∈ seq.kvState.blocks, b.id = id := fun _ _ hne => absurd rfl hne
      have hblocks : (seq.updateToken index token).kvState.blocks = seq.kvState.blocks := rfl
      have hinv := h.setContent hi hblocks rfl rfl hunchanged hset
      rw [update_eq_self] at hinv
      exact hinv

theorem stepServe (h : g.Inv options) (op : PoolOp) (hop : g.Timely (.serve op)) :
    IfOk (g.serve op) (Inv options) := by
  have hready : ∀ i, g.Ready i → ∀ seq, g.pool.sequences[i]? = some seq → ∀ q ∈ g.pending i,
      seq.kvState.numOwnedSharedBlocks * options.blockSize ≤ q →
        seq.kvState.kvCacheTokensNum / options.blockSize * options.blockSize ≤ q := by
    intro i hready seq hi q hq hle
    rw [← h.blockSize_eq] at hle ⊢
    exact hready seq hi q hq hle
  cases op with
  | arrive promptTokenIds capacity beamWidth =>
      refine Ensures.bind (Q := fun pool => Inv options { g with pool := pool }) ?_ fun _ hp => hp
      refine (Sequence.create_ensures promptTokenIds capacity beamWidth).ifOk.bind fun seq hs => ?_
      exact h.arrive hs.1 hs.2.1
  | allocate i numTokens =>
      refine Ensures.bind (Q := fun pool => Inv options { g with pool := pool }) ?_ fun _ hp => hp
      rw [PoolState.step]
      exact h.serve fun seq hi => ((h.stocked hi).allocate numTokens).bind fun _ hr => hr
  | tryAllocate i => exact h
  | allocateShared i =>
      refine Ensures.bind (Q := fun pool => Inv options { g with pool := pool }) ?_ fun _ hp => hp
      exact h.serve fun seq hi => (h.stocked hi).allocateShared
  | cache i =>
      refine Ensures.bind (Q := fun pool => Inv options { g with pool := pool }) ?_ fun _ hp => hp
      exact h.serve fun seq hi => (h.stocked hi).cache (hready i hop seq hi)
  | deallocate i =>
      refine Ensures.bind (Q := fun pool => Inv options { g with pool := pool }) ?_ fun _ hp => hp
      exact h.serve fun seq hi => (h.stocked hi).deallocate (hready i hop seq hi)
  | forward i allowedMaxTokens cpSize isPrefill =>
      rw [ContentState.serve]
      split
      · exact h
      · rename_i seq hi
        exact (h.forward hi allowedMaxTokens cpSize isPrefill hop).bind fun _ hp => hp
  | appendToken i token =>
      rw [ContentState.serve]
      split
      · exact h
      · rename_i seq hi
        exact (h.appendToken hi token hop).bind fun _ hp => hp
  | updateToken i index token => exact h.updateToken i index token hop
  | setSrcBlocks i j needSwap => exact hop.elim

theorem newRequest (h : g.Inv options) (promptTokenIds : List Token) (capacity beamWidth : Nat) :
    IfOk (g.newRequest promptTokenIds capacity beamWidth) (Inv options) := by
  refine Ensures.bind (Q := fun pool => Inv options { g with pool := pool } ∧
    ∃ seq, pool.sequences[g.pool.sequences.length]? = some seq ∧ seq.kvState = {}) ?_ ?_
  · refine (Sequence.create_ensures promptTokenIds capacity beamWidth).ifOk.bind fun seq hs => ?_
    exact ⟨h.arrive hs.1 hs.2.1, seq, getElem?_concat_length, hs.1⟩
  rintro pool ⟨hinv, seq, hi, hkv⟩
  rw [PoolState.tryAllocate, hi]
  have htry := (hinv.stocked hi).tryAllocate (by rw [hkv]) (by rw [hkv]) (by rw [hkv])
  have hlt : g.pool.sequences.length < pool.sequences.length := (List.getElem?_eq_some_iff.mp hi).1
  refine Ensures.bind (Q := fun r => ∃ p : Serving, r.2 = ⟨p.rank,
      pool.sequences.set g.pool.sequences.length p.sequence⟩ ∧
    ∀ pending, (∀ q, p.sequence.kvState.numOwnedSharedBlocks * options.blockSize ≤ q →
      q < p.sequence.kvState.kvCacheTokensNum → q ∈ pending) →
      Inv options { g with
        pool := r.2
        pending := update g.pending g.pool.sequences.length pending }) ?_ ?_
  · refine htry.bind fun r hr => ⟨r.2, rfl, fun pending hpending => ?_⟩
    exact hinv.set hi (hr.2 pending hpending) hr.1
  rintro ⟨ok, _⟩ ⟨p, rfl, hall⟩
  have hself : (pool.sequences.set g.pool.sequences.length p.sequence)[g.pool.sequences.length]? =
      some p.sequence := getElem?_set_self hlt
  cases ok with
  | true =>
      simp only [hself, Option.map_some, Option.getD_some]
      refine hall _ fun q hq hcount => ?_
      rw [h.blockSize_eq, mem_range'_1]
      omega
  | false =>
      have hgiven := hall (List.range' 0 p.sequence.kvState.kvCacheTokensNum) fun q _ hcount =>
        List.mem_range'_1.mpr ⟨Nat.zero_le q, by omega⟩
      have hstocked := hgiven.stocked hself
      simp only [PoolState.destroy, PoolState.serve, hself]
      refine Ensures.bind (Q := fun pool => Inv options { g with pool := pool }) ?_ fun _ hp => hp
      have hdestroy := hstocked.destroy.and hstocked.toBeamless.destroy
      refine hdestroy.ifOk.bind fun q hq => ?_
      obtain ⟨⟨hq, hspares⟩, -, hempty⟩ := hq
      have hblank : q.sequence.Tracked g.content options.blockSize
          (q.Alone (PoolState.others ⟨p.rank, pool.sequences.set g.pool.sequences.length p.sequence⟩
            g.pool.sequences.length)) (g.pending g.pool.sequences.length) :=
        .of_nil (by rw [hempty]) (by rw [hempty])
      have hset := hgiven.set hself ⟨hq.toBeamless, hq.produced, hblank⟩ hspares
      simp only [update_idem, update_eq_self] at hset
      exact hset

omit [XXH3] in
theorem loadHost (h : g.Inv options) (i hostCacheTokenNum : Nat) :
    IfOk (g.loadHost i hostCacheTokenNum) (Inv options) := by
  rw [ContentState.loadHost]
  split
  · exact h
  · rename_i seq hi
    simp only
    split
    · rename_i hlt
      rw [KVCacheState.incrKvCacheTokensNum]
      split
      · have hloaded := (h.tracked i seq hi).load (Nat.le_of_lt hlt)
        have hsum : seq.kvState.kvCacheTokensNum +
            (hostCacheTokenNum - seq.kvState.kvCacheTokensNum) = hostCacheTokenNum := by omega
        rw [hsum]
        exact h.setContent hi rfl rfl rfl (fun _ _ hne => absurd rfl hne) hloaded
      · exact trivial
    · exact h

omit [XXH3] in
theorem transfer (h : g.Inv options) {first : Nat} {ids : List Int} {tokens : List Token}
    (hop : ∀ j < ids.length, ∃ seq ∈ g.pool.sequences[i]?, ∃ id ∈ ids[j]?,
      seq.Expects g.blockSize (g.pending i) (first + j) id (tokensOf tokens g.blockSize j)) :
    Inv options (g.transfer i first ids tokens) := by
  cases hi : g.pool.sequences[i]? with
  | none =>
      -- nothing arrives
      have hnil : ids = [] := by
        refine eq_nil_of_length_eq_zero (Nat.eq_zero_of_not_pos fun hpos => ?_)
        obtain ⟨seq, hseq, -⟩ := hop 0 hpos
        rw [hi] at hseq
        cases hseq
      subst hnil
      have hall : (g.pending i).filter (fun q => q < first * g.blockSize ∨
          (first + ([] : List Int).length) * g.blockSize ≤ q) = g.pending i := by
        refine List.filter_eq_self.mpr fun q _ => decide_eq_true ?_
        rw [length_nil, Nat.add_zero]
        omega
      have hsame : g.transfer i first [] tokens = g := by
        rw [ContentState.transfer, hall, update_eq_self]
        rfl
      rw [hsame]
      exact h
  | some seq =>
      have hexpects : ∀ j < ids.length, ∃ id ∈ ids[j]?, seq.Expects options.blockSize (g.pending i)
          (first + j) id (tokensOf tokens options.blockSize j) := by
        intro j hj
        obtain ⟨seq', hseq', hexpected⟩ := hop j hj
        obtain rfl := Option.some.inj (hi.symm.trans hseq')
        rw [h.blockSize_eq] at hexpected
        exact hexpected
      obtain ⟨hids, htracked⟩ := (h.tracked i seq hi).transfer h.blockSize_pos (h.only hi) hexpects
      have hset := h.setContent hi rfl rfl rfl (fun id r hne => ?_) htracked
      · have hsame : g.pool.sequences.set i seq = g.pool.sequences := by
          obtain ⟨hlt, rfl⟩ := List.getElem?_eq_some_iff.mp hi
          exact set_getElem_self hlt
        rw [hsame] at hset
        rw [ContentState.transfer, h.blockSize_eq]
        exact hset
      · by_cases hmem : id ∈ ids
        · exact hids id hmem
        · simp only [List.idxOf?_eq_none_iff.mpr hmem] at hne
          exact absurd rfl hne

theorem step (h : g.Inv options) {op : ContentOp} (hop : g.Timely op) :
    IfOk (g.step op) (Inv options) := by
  cases op with
  | serve op => exact h.stepServe op hop
  | newRequest promptTokenIds capacity beamWidth =>
      exact h.newRequest promptTokenIds capacity beamWidth
  | destroy i =>
      refine Ensures.bind (Q := fun pool => Inv options { g with pool := pool }) ?_ fun _ hp => hp
      exact h.serve fun seq hi => (h.stocked hi).destroy
  | loadHost i hostCacheTokenNum => exact h.loadHost i hostCacheTokenNum
  | transfer i first ids tokens => exact h.transfer hop

omit [XXH3] in
theorem create {hostOptions : Options} {numIds : Nat} {concurrent : Bool} {pool : PoolState}
    (hpool : PoolState.create options hostOptions numIds concurrent = .ok pool) :
    Inv options { pool := pool } := by
  obtain ⟨hinv, hnone, -, hentries⟩ := PoolState.Inv.create hpool
  refine ⟨hinv, ?_, fun _ => hentries, ?_, fun i seq hi => ?_⟩
  · rw [hnone]
    exact forall_mem_nil _
  · rw [hentries]
    exact forall_mem_nil _
  · rw [hnone] at hi
    cases hi

theorem coherent (h : g.Inv options) : g.Coherent := by
  have hproduced : ∀ b ∈ g.pool.rank.blockManager.prefixCache.entries,
      Produced g.content g.blockSize b := by
    rw [h.blockSize_eq]
    exact h.produced
  refine ⟨hproduced, fun tokens b hb => hproduced b ?_⟩
  rw [PrefixCache.matched] at hb
  split at hb
  · cases hb
  · rw [nil_append] at hb
    exact Lru.mem_of_mem_hits hb

end

end Inv

/-- In every run in the right order only computed blocks are in the prefix cache. -/
theorem run_coherent [XXH3] {hostOptions : Options} {numIds : Nat} {concurrent : Bool}
    {pool : PoolState}
    (hpool : PoolState.create options hostOptions numIds concurrent = .ok pool)
    {ops : List ContentOp} (hops : Along step Timely { pool := pool } ops) :
    Ensures (run step { pool := pool } ops) (fun _ => True) Coherent :=
  (hops.ensures_run (fun _ _ h hop => h.step hop) (Inv.create hpool)).mono_post
    fun _ h => h.coherent

instance (g : ContentState) (i : Nat) : Decidable (g.Ready i) := by
  unfold Ready
  infer_instance

instance (g : ContentState) (op : ContentOp) : Decidable (g.Timely op) := by
  unfold Timely
  split <;> infer_instance

/-- The blocks of the cache: their ids, the tokens of their keys, and what they hold. -/
def cachedContent (g : ContentState) : List (Int × List Token × List (Option Token)) :=
  g.pool.rank.blockManager.prefixCache.entries.map fun b =>
    (b.id, b.hashTokens, (List.range g.blockSize).map (g.content b.id))

theorem not_coherent_of_cachedContent [XXH3] {g : ContentState} {id : Int} {tokens : List Token}
    {held : List (Option Token)} (h : (id, tokens, none :: held) ∈ g.cachedContent) :
    ¬ g.Coherent := by
  intro hcoherent
  obtain ⟨b, hb, heq⟩ := List.mem_map.mp h
  simp only [Prod.mk.injEq] at heq
  obtain ⟨rfl, rfl, hheld⟩ := heq
  obtain ⟨n, -, hproduced⟩ := hcoherent.entries b hb
  cases hsize : g.blockSize with
  | zero =>
      rw [hsize] at hheld
      cases hheld
  | succ m =>
      rw [hsize, range_succ_eq_map] at hheld
      have hsome := (hproduced 0 (by omega)).1
      rw [(List.cons.inj hheld).1] at hsome
      cases hsome

/-- A request is announced twice. The second sequence is refused and deallocated, and its
blocks go into the cache, where a third request finds them. Nothing has been computed. -/
theorem repeated_request_caches_nothing :
    let _ : XXH3 := XXH3.lastBytes
    Ensures (PoolState.create ⟨10, 2, true⟩ ⟨1, 2, true⟩ 4 true >>= fun pool =>
      run step { pool := pool } [.newRequest [1, 2, 3, 4] 16 0, .newRequest [1, 2, 3, 4] 16 0,
        .serve (.deallocate 1), .destroy 1, .newRequest [1, 2, 3, 4, 5] 16 0]) (fun _ => False)
      (fun g => g.cachedContent = [(4, [1, 2, 3, 4], [none, none]), (3, [1, 2], [none, none])] ∧
        (g.pool.sequences[2]?).map (fun seq => seq.kvState.blocks.map Block.id) = some [3, 4, 5] ∧
        ¬ g.Coherent) := by
  intro hash
  have hrun : Ensures (PoolState.create ⟨10, 2, true⟩ ⟨1, 2, true⟩ 4 true >>= fun pool =>
      run step { pool := pool } [.newRequest [1, 2, 3, 4] 16 0, .newRequest [1, 2, 3, 4] 16 0,
        .serve (.deallocate 1), .destroy 1, .newRequest [1, 2, 3, 4, 5] 16 0]) (fun _ => False)
      (fun g => g.cachedContent = [(4, [1, 2, 3, 4], [none, none]), (3, [1, 2], [none, none])] ∧
        (g.pool.sequences[2]?).map (fun seq => seq.kvState.blocks.map Block.id) =
          some [3, 4, 5]) := by
    decide +kernel
  refine hrun.mono_post fun g hg => ⟨hg.1, hg.2, ?_⟩
  have hmem : ((4 : Int), ([1, 2, 3, 4] : List Token), [(none : Option Token), none]) ∈
      g.cachedContent := by
    rw [hg.1]
    exact List.mem_cons_self
  exact not_coherent_of_cachedContent hmem

/-- A reserved prompt is pushed before the sequence goes on under overlap, and a part of the
next request is loaded from the host. -/
theorem run_coherent_decoding :
    let _ : XXH3 := XXH3.lastBytes
    ∃ pool, PoolState.create ⟨10, 2, true⟩ ⟨1, 2, true⟩ 4 true = .ok pool ∧
      Ensures (run step { pool := pool } [.newRequest [1, 2, 3, 4] 16 0,
        .transfer 0 0 [1, 2] [1, 2, 3, 4], .serve (.appendToken 0 (-1)),
        .serve (.updateToken 0 4 7), .serve (.allocate 0 5), .serve (.forward 0 9 1 false),
        .serve (.appendToken 0 (-1)), .serve (.allocate 0 6), .serve (.forward 0 9 1 false),
        .serve (.updateToken 0 5 8), .serve (.deallocate 0),
        .serve (.arrive [1, 2, 3, 4, 7, 8, 9, 10] 16 0), .serve (.allocate 1 8), .loadHost 1 8,
        .transfer 1 3 [4] [9, 10], .serve (.deallocate 1)])
        (fun _ => True) Coherent := by
  intro hash
  have hpool : PoolState.create ⟨10, 2, true⟩ ⟨1, 2, true⟩ 4 true = .ok _ := rfl
  refine ⟨_, hpool, @run_coherent ⟨10, 2, true⟩ _ ⟨1, 2, true⟩ 4 true _ hpool _ ?_⟩
  decide +kernel

end ContentState

end Xllm
