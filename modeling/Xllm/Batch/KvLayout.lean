import Mathlib.Data.List.GetD
import Xllm.Batch.Multithreaded
import Xllm.Block.ContentRun
import Xllm.Lib.Parts

/-!
# Three encodings of one page table

For each sequence of a batch the builder emits the slots of its new tokens, its block table,
and a list of pages with the length of the last one. Slots and block table follow the
positions. The page list has all blocks that the sequence owns, while the length of the last
page follows the length of the sequence, so the list denotes the right number of positions
only where the sequence owns no more blocks than it needs.
-/

namespace Xllm

open Contract Parts List Option

namespace BatchInputBuilder

def addPaddingRow (b : BatchInputBuilder) (numDecodingTokens : Nat) (s : BuilderState) :
    BuilderState :=
  { s with
    flattenTokensVec := s.flattenTokensVec ++ replicate numDecodingTokens 0
    flattenPositionsVec := if b.useMrope then s.flattenPositionsVec
      else s.flattenPositionsVec ++ replicate numDecodingTokens 0
    mropePositionsVec := if b.useMrope then
      s.mropePositionsVec ++ replicate numDecodingTokens [[0], [0], [0]]
      else s.mropePositionsVec
    newTokenSlotIds := s.newTokenSlotIds ++ replicate numDecodingTokens 0
    seqLens := if b.platform.cumulative then
      s.seqLens ++ [Chunks.back s.seqLens + numDecodingTokens]
      else s.seqLens ++ [numDecodingTokens]
    qSeqLens := if b.platform.cumulative then
      s.qSeqLens ++ [Chunks.back s.qSeqLens + numDecodingTokens]
      else s.qSeqLens ++ [numDecodingTokens]
    blockTablesVec := s.blockTablesVec ++ [[]]
    pagedKvIndices := s.pagedKvIndices ++ [0]
    pagedKvIndptr := s.pagedKvIndptr ++ [Chunks.back s.pagedKvIndptr + 1]
    pagedKvLastPageLen := s.pagedKvLastPageLen ++ [1] }

def paddingDecodeBatchSize (b : BatchInputBuilder) (numSequences numDecodingTokens
    minDecodingBatchSize : Nat) (s : BuilderState) : BuilderState :=
  if numSequences < minDecodingBatchSize ∧ s.batchForwardType ≠ .prefill ∧
      s.qMaxSeqLen = numDecodingTokens ∧
      s.flattenTokensVec.length = numSequences * numDecodingTokens then
    (range (minDecodingBatchSize - numSequences)).foldl
      (fun s _ => b.addPaddingRow numDecodingTokens s) s
  else s

/-- What `build_forward_input` passes to `state_to_forward_input`. Without a minimal batch
size it is what `build_raw_forward_input` sends. -/
def buildState (b : BatchInputBuilder) (ft : BatchForwardType) (threadPool : Option Nat)
    (entries : List BatchEntry) (numDecodingTokens minDecodingBatchSize : Nat) :
    Except Check BuilderState := do
  let s ← b.processSequences ft threadPool entries
  .ok (b.paddingDecodeBatchSize entries.length numDecodingTokens minDecodingBatchSize s)

variable {b : BatchInputBuilder} {ft : BatchForwardType} {s s' : BuilderState}
variable {seq : BatchSequence} {blockSize : Nat}

/-- The slots, the block tables and the page lists of a state. -/
structure KvFields where
  slotIds : List Int
  tables : List (List Int)
  indptr : List Nat
  indices : List Int
  lastPageLen : List Nat

def kvFields (s : BuilderState) : KvFields where
  slotIds := s.newTokenSlotIds
  tables := s.blockTablesVec
  indptr := s.pagedKvIndptr
  indices := s.pagedKvIndices
  lastPageLen := s.pagedKvLastPageLen

structure KvRow where
  table : List Int
  slotIds : List Int
  lastPageLen : Nat

def KvFields.push (f : KvFields) (row : KvRow) : KvFields where
  slotIds := f.slotIds ++ row.slotIds
  tables := f.tables ++ [row.table]
  indptr := f.indptr ++ [Chunks.back f.indptr + row.table.length]
  indices := f.indices ++ row.table
  lastPageLen := f.lastPageLen ++ [row.lastPageLen]

/-- The step does not touch the members that describe the cache. -/
def KeepsKv (s s' : BuilderState) : Prop :=
  kvFields s' = kvFields s ∧ s'.batchForwardType = s.batchForwardType

theorem KeepsKv.trans {t : BuilderState} (h : KeepsKv s s') (h' : KeepsKv s' t) : KeepsKv s t :=
  ⟨h'.1.trans h.1, h'.2.trans h.2⟩

theorem keepsKv_handleSamplingParameters (target : OutputTarget) (s : BuilderState) :
    IfOk (b.handleSamplingParameters seq target s) (KeepsKv s) := by
  rw [handleSamplingParameters]
  split
  · exact ⟨rfl, rfl⟩
  · split
    · exact trivial
    · exact ⟨rfl, rfl⟩

theorem keepsKv_sampleAt (index j : Nat) (slots : List SampleSlot) (s : BuilderState) :
    IfOk (b.sampleAt seq index j slots s) (fun r => KeepsKv s r.2) := by
  induction slots generalizing s with
  | nil => exact ⟨rfl, rfl⟩
  | cons slot slots ih =>
      rw [sampleAt]
      split_ifs
      · exact ih s
      · exact ⟨rfl, rfl⟩
      · refine (keepsKv_handleSamplingParameters _ s).bind fun s' hs' => ?_
        exact (ih s').mono_post fun r hr => hs'.trans hr

theorem keepsKv_extractToken (index j : Nat) (cursor : List SampleSlot × BuilderState) :
    IfOk (b.extractToken seq index cursor j) (fun r => KeepsKv cursor.2 r.2) := by
  rw [extractToken]
  split
  · exact trivial
  · rename_i token _
    have hpush : KeepsKv cursor.2 (b.pushToken token j cursor.2) := ⟨rfl, rfl⟩
    split_ifs
    · exact hpush
    · refine (keepsKv_handleSamplingParameters _ _).bind fun s' hs' => ?_
      exact hpush.trans hs'
    · exact (keepsKv_sampleAt index j _ _).mono_post fun r hr => hpush.trans hr

theorem keepsKv_foldl_pushToken (positions : List Nat) (s : BuilderState) :
    KeepsKv s (positions.foldl (fun s j => b.pushToken b.padTokenId j s) s) := by
  induction positions generalizing s with
  | nil => exact ⟨rfl, rfl⟩
  | cons j positions ih =>
      have hpush : KeepsKv s (b.pushToken b.padTokenId j s) := ⟨rfl, rfl⟩
      exact hpush.trans (ih _)

theorem keepsKv_addExtraToken (seqLen : Nat) (s : BuilderState) :
    IfOk (addExtraToken seq seqLen s) (KeepsKv s) := by
  rw [addExtraToken]
  split
  · exact ⟨rfl, rfl⟩
  · split
    · exact trivial
    · exact ⟨rfl, rfl⟩

theorem keepsKv_extractTokensAndPositions (index nKvCacheTokens seqLen paddedSeqLen : Nat)
    (s : BuilderState) :
    IfOk (b.extractTokensAndPositions seq index nKvCacheTokens seqLen paddedSeqLen s)
      (KeepsKv s) := by
  rw [extractTokensAndPositions]
  generalize hstart : (if b.useMrope = true then _ else s) = start
  have hkeeps : KeepsKv s start := by
    rw [← hstart]
    split_ifs <;> exact ⟨rfl, rfl⟩
  have hfold : IfOk ((List.range' nKvCacheTokens (seqLen - nKvCacheTokens)).foldlM
      (b.extractToken seq index) (seq.sampleSlots, start))
      (fun r => KeepsKv start r.2) := by
    generalize seq.sampleSlots = slots
    generalize List.range' nKvCacheTokens (seqLen - nKvCacheTokens) = positions
    clear hstart hkeeps
    induction positions generalizing slots start with
    | nil => exact ⟨rfl, rfl⟩
    | cons j positions ih =>
        refine (keepsKv_extractToken index j (slots, start)).bind fun r hr => ?_
        exact (ih r.2 r.1).mono_post fun r' hr' => hr.trans hr'
  refine hfold.bind fun cursor hcursor => ?_
  refine (keepsKv_addExtraToken seqLen _).mono_post fun s' hs' => ?_
  exact (hkeeps.trans hcursor).trans ((keepsKv_foldl_pushToken _ _).trans hs')

/-- The tokens that the builder takes from a sequence, with the padding of
context-parallel prefill. -/
def newTokens (b : BatchInputBuilder) (ft : BatchForwardType) (entry : BatchEntry) : Nat :=
  (entry.sequence.querySeqLen entry.allowedMaxTokens b.cpSize (decide (ft = .prefill))).2

/-- `seq_len`: the length of the sequence with the new tokens. -/
def seqLen (b : BatchInputBuilder) (ft : BatchForwardType) (entry : BatchEntry) : Nat :=
  b.newTokens ft entry + entry.sequence.kvState.kvCacheTokensNum

end BatchInputBuilder

def BatchEntry.table (entry : BatchEntry) : List Int := entry.sequence.kvState.blocks.map Block.id

def BatchEntry.Uniform (blockSize : Nat) (entry : BatchEntry) : Prop :=
  ∀ b ∈ entry.sequence.kvState.blocks, b.size = blockSize

namespace BatchInputBuilder

def slotOf (blockSize : Nat) (table : List Int) (j : Nat) : Int :=
  table.getD (j / blockSize) 0 * blockSize + ((j % blockSize : Nat) : Int)

/-- What `setup_kv_cache_info` adds for a sequence. -/
def kvRow (b : BatchInputBuilder) (ft : BatchForwardType) (blockSize : Nat) (entry : BatchEntry) :
    KvRow where
  table := entry.table
  slotIds := (List.range' entry.sequence.kvState.kvCacheTokensNum (b.newTokens ft entry)).map
    (slotOf blockSize entry.table)
  lastPageLen := if b.seqLen ft entry % blockSize = 0 then blockSize
    else b.seqLen ft entry % blockSize

/-- The sequence gets what it needs: at least one token, and blocks for all of them. -/
structure Served (b : BatchInputBuilder) (ft : BatchForwardType) (blockSize : Nat)
    (entry : BatchEntry) : Prop where
  blockSize_pos : 0 < blockSize
  newTokens_pos : 0 < b.newTokens ft entry
  enough : b.seqLen ft entry ≤ entry.table.length * blockSize

variable {b : BatchInputBuilder} {ft : BatchForwardType} {s s' : BuilderState}
variable {entry : BatchEntry} {blockSize : Nat}

theorem capacity_of_uniform (h : entry.Uniform blockSize) :
    entry.sequence.kvState.currentMaxTokensCapacity = entry.table.length * blockSize := by
  rw [KVCacheState.currentMaxTokensCapacity, BatchEntry.table, length_map]
  cases hblocks : entry.sequence.kvState.blocks with
  | nil => rw [length_nil, Nat.zero_mul]
  | cons c cs =>
      have hsize := h c (by rw [hblocks]; exact mem_cons_self)
      simp only [hsize]

theorem mapM_eq_pure {m : Type → Type} [Monad m] [LawfulMonad m] {α β : Type} {f : α → m β}
    {g : α → β} {l : List α} (h : ∀ x ∈ l, f x = pure (g x)) : l.mapM f = pure (l.map g) := by
  induction l with
  | nil => rw [mapM_nil, map_nil]
  | cons x l ih =>
      rw [mapM_cons, h x mem_cons_self, ih fun y hy => h y (mem_cons_of_mem x hy)]
      simp

theorem kvCacheSlots_eq {kv : KVCacheState} {start stop : Nat}
    (hsize : ∀ c ∈ kv.blocks, c.size = blockSize) (hpos : start < stop)
    (hroom : stop ≤ kv.blocks.length * blockSize) :
    kv.kvCacheSlots start stop =
      .ok ((List.range' start (stop - start)).map (slotOf blockSize (kv.blocks.map Block.id))) := by
  rw [KVCacheState.kvCacheSlots]
  cases hblocks : kv.blocks with
  | nil =>
      rw [hblocks, length_nil] at hroom
      omega
  | cons c cs =>
      have hc := hsize c (by rw [hblocks]; exact mem_cons_self)
      refine mapM_eq_pure fun j hj => ?_
      rw [mem_range'_1] at hj
      have hidx : j / blockSize < (c :: cs).length := by
        rw [← hblocks]
        refine Nat.div_lt_of_lt_mul ?_
        rw [Nat.mul_comm]
        omega
      rw [hc, getElem?_eq_getElem hidx, slotOf,
        getD_eq_getElem _ _ (by rw [length_map]; exact hidx), getElem_map]
      rfl

theorem processSingleSequence_slots (huniform : entry.Uniform blockSize)
    (hpos : 0 < blockSize) :
    IfOk (entry.sequence.toSequence.processSingleSequence entry.allowedMaxTokens b.cpSize
        (decide (ft = .prefill)))
      (fun r => r.1 = (b.kvRow ft blockSize entry).slotIds ∧ b.Served ft blockSize entry) := by
  rw [Sequence.processSingleSequence]
  dsimp only
  split
  swap
  · exact trivial
  rename_i hchecks
  obtain ⟨hallowed, hroom, hq⟩ := hchecks
  have hnew : 0 < b.newTokens ft entry := by
    rw [newTokens, Sequence.querySeqLen]
    rw [Sequence.querySeqLen] at hq
    split
    · rename_i hcp
      refine Nat.lt_min.mpr ⟨hallowed, Nat.mul_pos (Nat.div_pos ?_ ?_) ?_⟩ <;> omega
    · exact hq
  have hcapacity := capacity_of_uniform huniform
  have hserved : b.Served ft blockSize entry := ⟨hpos, hnew, hcapacity ▸ hroom⟩
  refine Ensures.bind (Q := fun kv => kv.blocks = entry.sequence.kvState.blocks) ?_ ?_
  · rw [KVCacheState.incrKvCacheTokensNum]
    split
    · exact rfl
    · exact trivial
  · intro kv hkv
    have hslots := @kvCacheSlots_eq blockSize kv entry.sequence.kvState.kvCacheTokensNum
      (b.seqLen ft entry)
      (by rw [hkv]; exact huniform) (by rw [seqLen]; omega)
      (by
        have henough := hserved.enough
        rwa [BatchEntry.table, length_map, ← hkv] at henough)
    rw [seqLen, newTokens, hkv] at hslots
    rw [hslots]
    refine ⟨?_, hserved⟩
    rw [Nat.add_sub_cancel]
    rfl

theorem setupKvCacheInfo_kvFields (huniform : entry.Uniform blockSize)
    (hserved : b.Served ft blockSize entry) (s : BuilderState) :
    IfOk (setupKvCacheInfo entry.sequence (b.kvRow ft blockSize entry).slotIds
        entry.sequence.kvState.kvCacheTokensNum (b.seqLen ft entry) s)
      (fun s' => kvFields s' = (kvFields s).push (b.kvRow ft blockSize entry) ∧
        s'.batchForwardType = s.batchForwardType) := by
  have hne : entry.sequence.kvState.blocks ≠ [] := by
    intro hnil
    have henough := hserved.enough
    rw [BatchEntry.table, hnil, map_nil, length_nil, seqLen] at henough
    have := hserved.newTokens_pos
    omega
  have hlast : (entry.sequence.kvState.blocks.getLast?.map Block.size).getD 0 = blockSize := by
    rw [getLast?_eq_some_getLast hne, map_some, getD_some,
      huniform _ (getLast_mem hne)]
  rw [setupKvCacheInfo]
  rw [hlast, if_neg hserved.blockSize_pos.ne']
  refine ⟨?_, rfl⟩
  simp only [kvFields, KvFields.push, kvRow, BatchEntry.table, length_map]

theorem processSingleSequence_kvFields (index : Nat) (huniform : entry.Uniform blockSize)
    (hpos : 0 < blockSize) (hft : s.batchForwardType = ft) :
    IfOk (b.processSingleSequence s (entry, index)) (fun s' =>
      (kvFields s' = (kvFields s).push (b.kvRow ft blockSize entry) ∧ s'.batchForwardType = ft) ∧
        b.Served ft blockSize entry) := by
  rw [processSingleSequence, hft]
  refine (processSingleSequence_slots huniform hpos).bind fun r hr => ?_
  obtain ⟨hslots, hserved⟩ := hr
  have hrecord : ∀ n m k, KeepsKv s (b.recordLengths n m k s) := fun _ _ _ => ⟨rfl, rfl⟩
  refine (keepsKv_extractTokensAndPositions index _ _ _ _).bind fun s₁ hs₁ => ?_
  have hkeeps := (hrecord _ _ _).trans hs₁
  rw [hslots]
  refine (setupKvCacheInfo_kvFields huniform hserved s₁).bind fun s₂ hs₂ => ?_
  refine ⟨⟨?_, hs₂.2.trans (hkeeps.2.trans hft)⟩, hserved⟩
  rw [← hkeeps.1]
  exact hs₂.1

theorem foldlM_processSingleSequence_kvFields (entries : List (BatchEntry × Nat))
    (huniform : ∀ entry ∈ entries, entry.1.Uniform blockSize) (hpos : 0 < blockSize)
    (hft : s.batchForwardType = ft) : IfOk (entries.foldlM b.processSingleSequence s) (fun s' =>
      kvFields s' = (entries.map fun entry => b.kvRow ft blockSize entry.1).foldl KvFields.push
          (kvFields s) ∧
        ∀ entry ∈ entries, b.Served ft blockSize entry.1) := by
  induction entries generalizing s with
  | nil => exact ⟨rfl, fun _ h => absurd h not_mem_nil⟩
  | cons entry entries ih =>
      refine (processSingleSequence_kvFields entry.2 (huniform entry mem_cons_self) hpos
        hft).bind fun s₁ hs₁ => ?_
      obtain ⟨⟨hfields, hft₁⟩, hserved⟩ := hs₁
      refine (ih (fun e he => huniform e (mem_cons_of_mem entry he)) hft₁).mono_post
        fun s' hs' => ⟨?_, List.forall_mem_cons.mpr ⟨hserved, hs'.2⟩⟩
      rw [hs'.1, hfields, map_cons, foldl_cons]

def KvFields.ofRows (rows : List KvRow) : KvFields where
  slotIds := (rows.map KvRow.slotIds).flatten
  tables := rows.map KvRow.table
  indptr := (range (rows.length + 1)).map fun i => (upTo (rows.map KvRow.table) i).length
  indices := (rows.map KvRow.table).flatten
  lastPageLen := rows.map KvRow.lastPageLen

@[simp] theorem foldl_push (rows : List KvRow) :
    rows.foldl KvFields.push (kvFields (b.emptyState ft)) = KvFields.ofRows rows := by
  induction rows using List.reverseRecOn with
  | nil => rfl
  | append_singleton rows row ih =>
      have hlen : (rows.map KvRow.table).length = rows.length := length_map _
      have hupTo : ∀ i ≤ rows.length, upTo ((rows ++ [row]).map KvRow.table) i =
          upTo (rows.map KvRow.table) i := by
        intro i hi
        rw [upTo, map_append, take_append_of_le_length (by omega), upTo]
      have hindptr : (KvFields.ofRows (rows ++ [row])).indptr = (KvFields.ofRows rows).indptr ++
          [(KvFields.ofRows rows).indices.length + row.table.length] := by
        dsimp only [KvFields.ofRows]
        rw [length_append, length_singleton, range_succ, map_append]
        refine congrArg₂ (· ++ ·) (map_congr_left fun i hi => ?_) ?_
        · rw [mem_range] at hi
          rw [hupTo i (by omega)]
        · simp [upTo]
      have hback : Chunks.back (KvFields.ofRows rows).indptr =
          (KvFields.ofRows rows).indices.length := by
        rw [KvFields.ofRows, range_succ, map_append, map_singleton,
          Chunks.back_concat, ← hlen, upTo_length]
      rw [foldl_append, ih, foldl_cons, KvFields.push, hback, ← hindptr]
      simp [KvFields.ofRows]

/-- Padding rows only follow what is there. -/
structure KvFields.Extends (f f' : KvFields) : Prop where
  slotIds : f.slotIds <+: f'.slotIds
  tables : f.tables <+: f'.tables
  indptr : f.indptr <+: f'.indptr
  indices : f.indices <+: f'.indices
  lastPageLen : f.lastPageLen <+: f'.lastPageLen

theorem KvFields.Extends.refl (f : KvFields) : f.Extends f :=
  ⟨prefix_refl _, prefix_refl _, prefix_refl _, prefix_refl _,
    prefix_refl _⟩

theorem KvFields.Extends.trans {f f' f'' : KvFields} (h : f.Extends f') (h' : f'.Extends f'') :
    f.Extends f'' :=
  ⟨h.slotIds.trans h'.slotIds, h.tables.trans h'.tables, h.indptr.trans h'.indptr,
    h.indices.trans h'.indices, h.lastPageLen.trans h'.lastPageLen⟩

theorem extends_addPaddingRow (numDecodingTokens : Nat) (s : BuilderState) :
    (kvFields s).Extends (kvFields (b.addPaddingRow numDecodingTokens s)) :=
  ⟨prefix_append _ _, prefix_append _ _, prefix_append _ _,
    prefix_append _ _, prefix_append _ _⟩

theorem extends_paddingDecodeBatchSize (numSequences numDecodingTokens minDecodingBatchSize : Nat)
    (s : BuilderState) : (kvFields s).Extends (kvFields
      (b.paddingDecodeBatchSize numSequences numDecodingTokens minDecodingBatchSize s)) := by
  rw [paddingDecodeBatchSize]
  split
  · generalize range (minDecodingBatchSize - numSequences) = rows
    clear * -
    induction rows generalizing s with
    | nil => exact .refl _
    | cons _ rows ih => exact (extends_addPaddingRow numDecodingTokens s).trans (ih _)
  · exact .refl _

theorem buildState_kvFields (threadPool : Option Nat) (entries : List BatchEntry)
    (huniform : ∀ entry ∈ entries, entry.Uniform blockSize) (hpos : 0 < blockSize)
    (numDecodingTokens minDecodingBatchSize : Nat)
    (hbuild : b.buildState ft threadPool entries numDecodingTokens minDecodingBatchSize = .ok s) :
    (KvFields.ofRows (entries.map (b.kvRow ft blockSize))).Extends (kvFields s) ∧
      ∀ entry ∈ entries, b.Served ft blockSize entry := by
  have hrows : (entries.zipIdx.map fun entry => b.kvRow ft blockSize entry.1) =
      entries.map (b.kvRow ft blockSize) := by
    rw [← Function.comp_def (b.kvRow ft blockSize) Prod.fst, ← List.map_map, zipIdx_map_fst]
  have hmem : ∀ entry ∈ entries, ∃ index, (entry, index) ∈ entries.zipIdx := by
    intro entry hentry
    obtain ⟨index, hlt, rfl⟩ := getElem_of_mem hentry
    exact ⟨index, List.mem_zipIdx_iff_getElem?.mpr (getElem?_eq_getElem hlt)⟩
  have hsequential : ∀ s, b.processSequencesSequentially ft entries = .ok s →
      kvFields s = KvFields.ofRows (entries.map (b.kvRow ft blockSize)) ∧
        ∀ entry ∈ entries, b.Served ft blockSize entry := by
    intro s hs
    have hrun := (foldlM_processSingleSequence_kvFields (b := b) entries.zipIdx
      (fun entry hentry => huniform _ (fst_mem_of_mem_zipIdx hentry)) hpos
      (show (b.emptyState ft).batchForwardType = ft from rfl)).of_ok hs
    rw [hrows, foldl_push] at hrun
    refine ⟨hrun.1, fun entry hentry => ?_⟩
    obtain ⟨index, hindex⟩ := hmem entry hentry
    exact hrun.2 _ hindex
  have hprocessed : ∀ s, b.processSequences ft threadPool entries = .ok s →
      kvFields s = KvFields.ofRows (entries.map (b.kvRow ft blockSize)) ∧
        ∀ entry ∈ entries, b.Served ft blockSize entry := by
    intro s hs
    cases threadPool with
    | none => exact hsequential s hs
    | some size =>
        rw [processSequences] at hs
        split at hs
        case isFalse => exact hsequential s hs
        case isTrue =>
          rcases Nat.eq_zero_or_pos size with rfl | hsize
          · cases hs
          · rw [processSequencesMultithreaded_eq b ft hsize] at hs
            cases hone : b.processSequencesSequentially ft entries with
            | error e =>
                rw [hone] at hs
                cases hs
            | ok s' =>
                rw [hone] at hs
                cases hs
                exact hsequential s' hone
  obtain ⟨s', hs', hpad⟩ := bind_eq_ok hbuild
  cases hpad
  obtain ⟨hfields, hserved⟩ := hprocessed s' hs'
  exact ⟨hfields ▸ extends_paddingDecodeBatchSize _ _ _ _, hserved⟩

/-- Row `i` describes the pages of one sequence: its block table, the slots of its new
tokens, which start at `first`, and its page list. -/
structure KvFields.Describes (f : KvFields) (blockSize i first nKvCacheTokens seqLen : Nat)
    (table : List Int) : Prop where
  table_eq : f.tables[i]? = some table
  slot : ∀ j, nKvCacheTokens ≤ j → j < seqLen → ∃ block, table[j / blockSize]? = some block ∧
    f.slotIds[first + (j - nKvCacheTokens)]? =
      some (block * blockSize + ((j % blockSize : Nat) : Int))
  pages : ∃ start stop, f.indptr[i]? = some start ∧ f.indptr[i + 1]? = some stop ∧
    (f.indices.drop start).take (stop - start) = table

/-- The page list of row `i` and the length of its last page denote that many positions. -/
def KvFields.Covers (f : KvFields) (blockSize i seqLen : Nat) : Prop :=
  ∃ start stop lastPageLen, f.indptr[i]? = some start ∧ f.indptr[i + 1]? = some stop ∧
    f.lastPageLen[i]? = some lastPageLen ∧ (stop - start - 1) * blockSize + lastPageLen = seqLen

def firstSlot (b : BatchInputBuilder) (ft : BatchForwardType) (entries : List BatchEntry)
    (i : Nat) : Nat :=
  ((entries.take i).map (b.newTokens ft)).sum

def SlotsApart (b : BatchInputBuilder) (ft : BatchForwardType) (entries : List BatchEntry)
    (f : KvFields) : Prop :=
  ∀ (i k : Nat) (entry other : BatchEntry), i ≠ k → entries[i]? = some entry →
    entries[k]? = some other → ∀ m n, m < b.newTokens ft entry → n < b.newTokens ft other →
      f.slotIds[b.firstSlot ft entries i + m]? ≠ f.slotIds[b.firstSlot ft entries k + n]?

structure LayoutAgrees (b : BatchInputBuilder) (ft : BatchForwardType) (blockSize : Nat)
    (entries : List BatchEntry) (f : KvFields) : Prop where
  describes : ∀ (i : Nat) (entry : BatchEntry), entries[i]? = some entry →
    f.Describes blockSize i (b.firstSlot ft entries i)
      entry.sequence.kvState.kvCacheTokensNum (b.seqLen ft entry) entry.table
  covers : ∀ (i : Nat) (entry : BatchEntry), entries[i]? = some entry →
    f.Covers blockSize i (b.seqLen ft entry)
  apart : b.SlotsApart ft entries f

/-- No offset of a block is written for two sequences. -/
def WritesApart (b : BatchInputBuilder) (ft : BatchForwardType) (blockSize : Nat)
    (entries : List BatchEntry) : Prop :=
  ∀ (i k : Nat) (entry other : BatchEntry), i ≠ k → entries[i]? = some entry →
    entries[k]? = some other → ∀ j j',
      entry.sequence.kvState.kvCacheTokensNum ≤ j → j < b.seqLen ft entry →
      other.sequence.kvState.kvCacheTokensNum ≤ j' → j' < b.seqLen ft other →
      j % blockSize = j' % blockSize →
      entry.table[j / blockSize]? ≠ other.table[j' / blockSize]?

def OwnsWhatItNeeds (b : BatchInputBuilder) (ft : BatchForwardType) (blockSize : Nat)
    (entry : BatchEntry) : Prop :=
  entry.table.length = (b.seqLen ft entry + blockSize - 1) / blockSize

section Rows

variable {entries : List BatchEntry} {f : KvFields} {i : Nat}

theorem getElem?_mono {α : Type} {l l' : List α} {x : α} (h : l <+: l') (hx : l[i]? = some x) :
    l'[i]? = some x := by
  obtain ⟨rest, rfl⟩ := h
  rw [getElem?_append_left (List.getElem?_eq_some_iff.mp hx).1, hx]

theorem length_upTo_slotIds : (upTo ((entries.map (b.kvRow ft blockSize)).map KvRow.slotIds)
    i).length = b.firstSlot ft entries i := by
  rw [upTo, length_flatten, List.map_map, ← map_take, List.map_map]
  refine congrArg List.sum (map_congr_left fun entry _ => ?_)
  simp [kvRow]

theorem getElem?_slotIds (hext : (KvFields.ofRows (entries.map (b.kvRow ft blockSize))).Extends f)
    (hi : entries[i]? = some entry) {m : Nat} (hm : m < b.newTokens ft entry) :
    f.slotIds[b.firstSlot ft entries i + m]? = some (slotOf blockSize entry.table
      (entry.sequence.kvState.kvCacheTokensNum + m)) := by
  obtain ⟨hlt, hget⟩ := List.getElem?_eq_some_iff.mp hi
  have hrow : i < ((entries.map (b.kvRow ft blockSize)).map KvRow.slotIds).length := by
    simpa using hlt
  have hpart : ((entries.map (b.kvRow ft blockSize)).map KvRow.slotIds)[i] =
      (b.kvRow ft blockSize entry).slotIds := by
    simp [hget]
  have helem := getElem?_flatten hrow (k := m) (by rw [hpart]; simpa [kvRow] using hm)
  rw [length_upTo_slotIds] at helem
  simp only [hpart] at helem
  rw [getElem?_mono hext.slotIds helem]
  simp [kvRow]

theorem getElem?_indptr (hext : (KvFields.ofRows (entries.map (b.kvRow ft blockSize))).Extends f)
    (hi : i ≤ entries.length) :
    f.indptr[i]? = some (upTo (entries.map BatchEntry.table) i).length := by
  refine getElem?_mono hext.indptr ?_
  rw [KvFields.ofRows, getElem?_map, getElem?_range (by rw [length_map]; omega), List.map_map]
  rfl

theorem map_table_kvRow : (entries.map (b.kvRow ft blockSize)).map KvRow.table =
    entries.map BatchEntry.table := by
  rw [List.map_map]
  rfl

theorem span_tables (hi : entries[i]? = some entry) :
    span (entries.map BatchEntry.table) i 1 = entry.table := by
  obtain ⟨hlt, hget⟩ := List.getElem?_eq_some_iff.mp hi
  rw [span_one (by rwa [length_map]), getElem_map, hget]

@[simp] theorem length_upTo_succ (hi : entries[i]? = some entry) :
    (upTo (entries.map BatchEntry.table) (i + 1)).length =
      (upTo (entries.map BatchEntry.table) i).length + entry.table.length := by
  rw [upTo_add, length_append, span_tables hi]

theorem describes_of_extends
    (hext : (KvFields.ofRows (entries.map (b.kvRow ft blockSize))).Extends f)
    (hi : entries[i]? = some entry) (hserved : b.Served ft blockSize entry) :
    f.Describes blockSize i (b.firstSlot ft entries i)
      entry.sequence.kvState.kvCacheTokensNum (b.seqLen ft entry) entry.table := by
  have hlt := (List.getElem?_eq_some_iff.mp hi).1
  refine ⟨getElem?_mono hext.tables ?_, fun j hle hj => ?_, ?_⟩
  · rw [KvFields.ofRows, map_table_kvRow, getElem?_map, hi]
    rfl
  · have hpage : j / blockSize < entry.table.length := by
      refine Nat.div_lt_of_lt_mul ?_
      rw [Nat.mul_comm]
      have := hserved.enough
      omega
    refine ⟨entry.table[j / blockSize], getElem?_eq_getElem hpage, ?_⟩
    rw [getElem?_slotIds hext hi (by rw [seqLen] at hj; omega), Nat.add_sub_cancel' hle, slotOf,
      getD_eq_getElem _ _ hpage]
  · refine ⟨_, _, getElem?_indptr hext (Nat.le_of_lt hlt), getElem?_indptr hext hlt, ?_⟩
    obtain ⟨back, hback⟩ := hext.indices
    have hindices : (KvFields.ofRows (entries.map (b.kvRow ft blockSize))).indices =
        (entries.map BatchEntry.table).flatten := by
      rw [KvFields.ofRows, map_table_kvRow]
    obtain ⟨rest, hrest⟩ := upTo_isPrefix (entries.map BatchEntry.table) (i + 1)
    rw [← hback, hindices, ← hrest, upTo_add, span_tables hi, append_assoc, append_assoc,
      drop_left, length_append, Nat.add_sub_cancel_left, take_left]

theorem lastPage_eq {len : Nat} (hpos : 0 < blockSize) (hlen : 0 < len) :
    ((len + blockSize - 1) / blockSize - 1) * blockSize +
      (if len % blockSize = 0 then blockSize else len % blockSize) = len := by
  have hsplit := Nat.div_add_mod len blockSize
  have hmod := Nat.mod_lt len hpos
  generalize len / blockSize = k at hsplit
  split
  · rename_i hzero
    rw [hzero, Nat.add_zero] at hsplit
    obtain ⟨m, rfl⟩ : ∃ m, k = m + 1 := Nat.exists_eq_succ_of_ne_zero fun hk => by
      rw [hk] at hsplit
      omega
    have hpages : (len + blockSize - 1) / blockSize = m + 1 := by
      rw [← hsplit, Nat.add_sub_assoc hpos, Nat.mul_add_div hpos,
        Nat.div_eq_of_lt (Nat.sub_lt hpos Nat.one_pos)]
    rw [hpages, Nat.add_sub_cancel, ← hsplit, Nat.mul_succ, Nat.mul_comm]
  · rename_i hne
    have hpages : (len + blockSize - 1) / blockSize = k + 1 := by
      rw [show len + blockSize - 1 = blockSize * (k + 1) + (len % blockSize - 1) by
        rw [Nat.mul_succ]; omega, Nat.mul_add_div hpos, Nat.div_eq_of_lt (by omega)]
    rw [hpages, Nat.add_sub_cancel, Nat.mul_comm, hsplit]

/-- The page list denotes the length of the sequence exactly when the sequence owns no more
blocks than it needs. -/
theorem covers_iff (hext : (KvFields.ofRows (entries.map (b.kvRow ft blockSize))).Extends f)
    (hi : entries[i]? = some entry) (hserved : b.Served ft blockSize entry) :
    f.Covers blockSize i (b.seqLen ft entry) ↔ b.OwnsWhatItNeeds ft blockSize entry := by
  have hlt := (List.getElem?_eq_some_iff.mp hi).1
  have hlast : f.lastPageLen[i]? = some (if b.seqLen ft entry % blockSize = 0 then blockSize
      else b.seqLen ft entry % blockSize) := by
    refine getElem?_mono hext.lastPageLen ?_
    rw [KvFields.ofRows, getElem?_map, getElem?_map, hi]
    rfl
  have hpages : f.Covers blockSize i (b.seqLen ft entry) ↔
      (entry.table.length - 1) * blockSize + (if b.seqLen ft entry % blockSize = 0 then blockSize
        else b.seqLen ft entry % blockSize) = b.seqLen ft entry := by
    rw [KvFields.Covers, getElem?_indptr hext (Nat.le_of_lt hlt), getElem?_indptr hext hlt, hlast,
      length_upTo_succ hi]
    constructor
    · rintro ⟨start, stop, last, hstart, hstop, hlast, hlength⟩
      rw [some_inj] at hstart hstop hlast
      rwa [← hstart, ← hstop, ← hlast, Nat.add_sub_cancel_left] at hlength
    · intro hlength
      exact ⟨_, _, _, rfl, rfl, rfl, by rwa [Nat.add_sub_cancel_left]⟩
  rw [hpages, OwnsWhatItNeeds]
  have hpos := hserved.blockSize_pos
  have henough := hserved.enough
  have hnew : 0 < b.seqLen ft entry :=
    Nat.lt_of_lt_of_le hserved.newTokens_pos (Nat.le_add_right _ _)
  have hn : 0 < entry.table.length := Nat.pos_of_ne_zero fun hzero => by
    rw [hzero] at henough
    omega
  have hneeded := lastPage_eq hpos hnew
  have hceil : 0 < (b.seqLen ft entry + blockSize - 1) / blockSize :=
    Nat.div_pos (by omega) hpos
  constructor
  · intro hlength
    have hmul := Nat.add_right_cancel (hlength.trans hneeded.symm)
    have hpages := Nat.mul_right_cancel hpos hmul
    omega
  · intro hlength
    rw [hlength]
    exact hneeded

theorem slot_eq_iff {x y : Int} {r r' : Nat} (hr : r < blockSize) (hr' : r' < blockSize) :
    x * blockSize + (r : Int) = y * blockSize + (r' : Int) ↔ r = r' ∧ x = y := by
  constructor
  · intro h
    have hmod := congrArg (· % (blockSize : Int)) h
    simp only [Int.mul_add_emod_self_right] at hmod
    rw [Int.emod_eq_of_lt (by omega) (by omega), Int.emod_eq_of_lt (by omega) (by omega)] at hmod
    obtain rfl : r = r' := by omega
    have hmul : x * (blockSize : Int) = y * blockSize := by omega
    exact ⟨rfl, Int.eq_of_mul_eq_mul_right (by omega) hmul⟩
  · rintro ⟨rfl, rfl⟩
    rfl

theorem slotsApart_iff (hext : (KvFields.ofRows (entries.map (b.kvRow ft blockSize))).Extends f)
    (hserved : ∀ entry ∈ entries, b.Served ft blockSize entry) :
    b.SlotsApart ft entries f ↔ b.WritesApart ft blockSize entries := by
  have hpage : ∀ entry ∈ entries, ∀ j < b.seqLen ft entry,
      j / blockSize < entry.table.length := by
    intro entry hentry j hj
    refine Nat.div_lt_of_lt_mul ?_
    rw [Nat.mul_comm]
    exact Nat.lt_of_lt_of_le hj (hserved entry hentry).enough
  have hslot : ∀ entry ∈ entries, ∀ other ∈ entries, ∀ j < b.seqLen ft entry,
      ∀ j' < b.seqLen ft other,
        (slotOf blockSize entry.table j = slotOf blockSize other.table j' ↔
          j % blockSize = j' % blockSize ∧
            entry.table[j / blockSize]? = other.table[j' / blockSize]?) := by
    intro entry hentry other hother j hj j' hj'
    have hpos := (hserved entry hentry).blockSize_pos
    rw [slotOf, slotOf, getD_eq_getElem _ _ (hpage entry hentry j hj),
      getD_eq_getElem _ _ (hpage other hother j' hj'),
      getElem?_eq_getElem (hpage entry hentry j hj),
      getElem?_eq_getElem (hpage other hother j' hj'), some_inj]
    exact slot_eq_iff (Nat.mod_lt j hpos) (Nat.mod_lt j' hpos)
  constructor
  · intro hapart i k entry other hik hi hk j j' hle hj hle' hj' hoffset hblock
    have hentry := mem_of_getElem? hi
    have hother := mem_of_getElem? hk
    rw [seqLen] at hj hj'
    refine hapart i k entry other hik hi hk
      (j - entry.sequence.kvState.kvCacheTokensNum)
      (j' - other.sequence.kvState.kvCacheTokensNum) (by omega) (by omega) ?_
    rw [getElem?_slotIds hext hi (by omega), getElem?_slotIds hext hk (by omega),
      Nat.add_sub_cancel' hle, Nat.add_sub_cancel' hle', some_inj]
    exact (hslot entry hentry other hother j hj j' hj').mpr ⟨hoffset, hblock⟩
  · intro hwrites i k entry other hik hi hk m n hm hn hsame
    have hentry := mem_of_getElem? hi
    have hother := mem_of_getElem? hk
    rw [getElem?_slotIds hext hi hm, getElem?_slotIds hext hk hn, some_inj] at hsame
    have hm' : entry.sequence.kvState.kvCacheTokensNum + m < b.seqLen ft entry := by
      rw [seqLen]
      omega
    have hn' : other.sequence.kvState.kvCacheTokensNum + n < b.seqLen ft other := by
      rw [seqLen]
      omega
    obtain ⟨hoffset, hblock⟩ := (hslot entry hentry other hother _ hm' _ hn').mp hsame
    exact hwrites i k entry other hik hi hk _ _ (Nat.le_add_right _ _) hm'
      (Nat.le_add_right _ _) hn' hoffset hblock

end Rows

/-- Slots, block table and page list of every sequence agree, and the slots of different
sequences are distinct, exactly when every sequence owns the number of blocks that its
length needs and no offset of a block is written for two sequences. -/
theorem layoutAgrees_iff (b : BatchInputBuilder) (ft : BatchForwardType)
    (threadPool : Option Nat) (entries : List BatchEntry) {blockSize : Nat} (hpos : 0 < blockSize)
    (huniform : ∀ entry ∈ entries, entry.Uniform blockSize)
    (numDecodingTokens minDecodingBatchSize : Nat) {s : BuilderState}
    (hbuild : b.buildState ft threadPool entries numDecodingTokens minDecodingBatchSize = .ok s) :
    b.LayoutAgrees ft blockSize entries (kvFields s) ↔
      (∀ entry ∈ entries, b.OwnsWhatItNeeds ft blockSize entry) ∧
        b.WritesApart ft blockSize entries := by
  obtain ⟨hext, hserved⟩ := buildState_kvFields threadPool entries huniform hpos numDecodingTokens
    minDecodingBatchSize hbuild
  constructor
  · intro h
    refine ⟨fun entry hentry => ?_, (slotsApart_iff hext hserved).mp h.apart⟩
    obtain ⟨i, hlt, rfl⟩ := getElem_of_mem hentry
    have hi := getElem?_eq_getElem hlt
    exact (covers_iff hext hi (hserved _ hentry)).mp (h.covers i _ hi)
  · rintro ⟨howns, hwrites⟩
    refine ⟨fun i entry hi => ?_, fun i entry hi => ?_, (slotsApart_iff hext hserved).mpr hwrites⟩
    · exact describes_of_extends hext hi (hserved entry (mem_of_getElem? hi))
    · have hentry := mem_of_getElem? hi
      exact (covers_iff hext hi (hserved entry hentry)).mpr (howns entry hentry)

theorem writesApart_of_shared {entries : List BatchEntry}
    (hshared : ∀ (i k : Nat) (entry other : BatchEntry), i ≠ k → entries[i]? = some entry →
      entries[k]? = some other → ∀ p q : Nat, p < entry.table.length →
      entry.table[p]? = other.table[q]? → p < entry.sequence.kvState.kvCacheTokensNum / blockSize)
    (henough : ∀ entry ∈ entries, b.seqLen ft entry ≤ entry.table.length * blockSize) :
    b.WritesApart ft blockSize entries := by
  intro i k entry other hik hi hk j j' hle hj _ _ _ hblock
  have hpage : j / blockSize < entry.table.length := by
    refine Nat.div_lt_of_lt_mul ?_
    rw [Nat.mul_comm]
    exact Nat.lt_of_lt_of_le hj (henough entry (mem_of_getElem? hi))
  have hfull := hshared i k entry other hik hi hk _ _ hpage hblock
  exact absurd (Nat.div_le_div_right hle) (Nat.not_le_of_lt hfull)

/-- Five tokens, of which four are counted, with room for four speculative ones. -/
def speculatingEntry : BatchEntry where
  sequence :=
    { tokenBuffer := [5, 6, 7, 8, 9, 0, 0, 0, 0]
      numTokens := 5
      numPromptTokens := 4
      volatileNumPromptTokens := 4
      kvState :=
        { kvCacheTokensNum := 4
          blocks := [{ id := 1, size := 4, refCount := some 0 },
            { id := 2, size := 4, refCount := some 1 },
              { id := 3, size := 4, refCount := some 2 }] } }
  allowedMaxTokens := 5

/-- The page list of a sequence with a block to spare denotes nine positions and not five. -/
theorem spare_block_is_listed : ∃ s, buildState { platform := .cuda } .decode none
    [speculatingEntry] 1 0 = .ok s ∧ s.pagedKvIndptr = [0, 3] ∧ s.pagedKvLastPageLen = [1] ∧
      ¬LayoutAgrees { platform := .cuda } .decode 4 [speculatingEntry] (kvFields s) := by
  refine ⟨_, rfl, rfl, rfl, fun h => ?_⟩
  obtain ⟨start, stop, last, hstart, hstop, hlast, hlength⟩ := h.covers 0 speculatingEntry rfl
  cases hstart
  cases hstop
  cases hlast
  exact absurd hlength (by decide)

/-- Two prompts whose blocks suffice exactly. -/
def fittingEntry (id : Int) : BatchEntry where
  sequence :=
    { tokenBuffer := [5, 6, 7]
      numTokens := 3
      numPromptTokens := 3
      volatileNumPromptTokens := 3
      kvState := { blocks := [{ id := id, size := 2, refCount := some 0 },
        { id := id + 1, size := 2, refCount := some 1 }] } }
  allowedMaxTokens := 3

theorem layoutAgrees_iff_fitting : ∃ s, buildState { platform := .cuda } .prefill none
    [fittingEntry 1, fittingEntry 3] 1 0 = .ok s ∧
      LayoutAgrees { platform := .cuda } .prefill 2 [fittingEntry 1, fittingEntry 3]
        (kvFields s) := by
  have huniform : ∀ entry ∈ [fittingEntry 1, fittingEntry 3], entry.Uniform 2 := by
    intro entry hentry
    simp only [mem_cons, not_mem_nil, or_false] at hentry
    rcases hentry with rfl | rfl <;> simp [BatchEntry.Uniform, fittingEntry]
  have hwrites : WritesApart { platform := .cuda } .prefill 2 [fittingEntry 1, fittingEntry 3] := by
    refine writesApart_of_shared ?_ ?_
    · intro i k entry other hik hi hk p q hp hblock
      have hmem : entry.table[p] ∈ other.table :=
        mem_of_getElem? (by rw [← hblock, getElem?_eq_getElem hp])
      have hown := getElem_mem hp
      generalize entry.table[p] = id at hmem hown
      rcases i with _ | _ | i <;> rcases k with _ | _ | k <;>
        simp only [getElem?_cons_zero, getElem?_cons_succ, getElem?_nil,
          reduceCtorEq, some_inj] at hi hk
      · exact absurd rfl hik
      · subst hi hk
        simp [BatchEntry.table, fittingEntry] at hmem hown
        omega
      · subst hi hk
        simp [BatchEntry.table, fittingEntry] at hmem hown
        omega
      · exact absurd rfl hik
    · intro entry hentry
      simp only [mem_cons, not_mem_nil, or_false] at hentry
      rcases hentry with rfl | rfl <;> decide
  refine ⟨_, rfl, (layoutAgrees_iff _ .prefill none _ (by decide) huniform 1 0 rfl).mpr
    ⟨?_, hwrites⟩⟩
  intro entry hentry
  simp only [mem_cons, not_mem_nil, or_false] at hentry
  rcases hentry with rfl | rfl <;> rfl

end BatchInputBuilder

namespace ContentState.Inv

variable {g : ContentState} {options : Options} {i k : Nat} {seq other : Sequence}

/-- A position that is not counted, or not written yet, is in a block that no other sequence
has. -/
theorem unshared (h : g.Inv options) (hik : i ≠ k) (hi : g.pool.sequences[i]? = some seq)
    (hk : g.pool.sequences[k]? = some other) {position q : Nat} {b c : Block}
    (hbehind : seq.kvState.numOwnedSharedBlocks * options.blockSize ≤ position)
    (hopen : seq.kvState.kvCacheTokensNum ≤ position ∨ position ∈ g.pending i)
    (hb : seq.kvState.blocks[position / options.blockSize]? = some b)
    (hc : other.kvState.blocks[q]? = some c) : b.id ≠ c.id := by
  intro hid
  have halone := (h.tracked i seq hi).alone_of_uncounted h.blockSize_pos hbehind hopen hb
  rw [PoolState.Alone, h.inv.count_eq h.src_nil hi] at halone
  have hown := Serving.count_pos_of_mem (mem_of_getElem? hb)
  have hother := h.count_others_pos hik.symm hk (mem_of_getElem? hc)
  rw [← hid] at hother
  omega

theorem shared_below (h : g.Inv options) (hik : i ≠ k) (hi : g.pool.sequences[i]? = some seq)
    (hk : g.pool.sequences[k]? = some other)
    (hcounted : seq.kvState.numOwnedSharedBlocks ≤ seq.kvState.kvCacheTokensNum / options.blockSize)
    {p q : Nat} {b c : Block} (hb : seq.kvState.blocks[p]? = some b)
    (hc : other.kvState.blocks[q]? = some c) (hid : b.id = c.id) :
    p < seq.kvState.kvCacheTokensNum / options.blockSize := by
  have hpos := h.blockSize_pos
  by_contra hp
  rw [Nat.not_lt] at hp
  -- the last position of the page is not counted
  have hposition : (p * options.blockSize + (options.blockSize - 1)) / options.blockSize = p := by
    rw [Nat.mul_comm, Nat.mul_add_div hpos, Nat.div_eq_of_lt (Nat.sub_lt hpos Nat.one_pos),
      Nat.add_zero]
  have huncounted : seq.kvState.kvCacheTokensNum ≤
      p * options.blockSize + (options.blockSize - 1) := by
    have hlt := Nat.lt_mul_of_div_lt (Nat.lt_succ_of_le hp) hpos
    rw [Nat.succ_mul] at hlt
    omega
  exact h.unshared hik hi hk
    (Nat.le_trans (Nat.mul_le_mul_right _ (hcounted.trans hp)) (Nat.le_add_right _ _))
    (.inl huncounted) (by rwa [hposition]) hc hid

end ContentState.Inv

namespace ContentState

/-- A block that two sequences have holds no position that is still to be written: it is full of
computed tokens, as long as what the sequence counts as shared is counted as computed, and none
of the pending positions behind what it shares is in it. -/
def SharesComputed (g : ContentState) : Prop :=
  ∀ (i k : Nat) (seq other : Sequence), i ≠ k →
    g.pool.sequences[i]? = some seq → g.pool.sequences[k]? = some other →
      ∀ (p q : Nat) (b c : Block), seq.kvState.blocks[p]? = some b →
        other.kvState.blocks[q]? = some c → b.id = c.id →
          (seq.kvState.numOwnedSharedBlocks ≤ seq.kvState.kvCacheTokensNum / g.blockSize →
            p < seq.kvState.kvCacheTokensNum / g.blockSize) ∧
          ∀ position ∈ g.pending i,
            seq.kvState.numOwnedSharedBlocks * g.blockSize ≤ position → position / g.blockSize ≠ p

/-- In every state that a timely run reaches, no position that is still to be written is in a
block of another sequence. -/
theorem run_sharesComputed [XXH3] {options hostOptions : Options} {numIds : Nat}
    {concurrent : Bool} {pool : PoolState}
    (hpool : PoolState.create options hostOptions numIds concurrent = .ok pool)
    {ops : List ContentOp} (hops : Along step Timely { pool := pool } ops) :
    Ensures (run step { pool := pool } ops) (fun _ => True) SharesComputed := by
  refine (hops.ensures_run (fun _ _ h hop => h.step hop) (Inv.create hpool)).mono_post ?_
  intro g h i k seq other hik hi hk p q b c hb hc hid
  rw [h.blockSize_eq]
  constructor
  · exact fun hcounted => h.shared_below hik hi hk hcounted hb hc hid
  · rintro position hpending hbehind rfl
    exact h.unshared hik hi hk hbehind (.inr hpending) hb hc hid

theorem run_sharesComputed_prompt : let _ : XXH3 := XXH3.lastBytes
    ∃ pool, PoolState.create ⟨10, 2, true⟩ ⟨1, 2, true⟩ 4 true = .ok pool ∧
      Ensures (run step { pool := pool } [.newRequest [1, 2, 3, 4] 16 0,
        .transfer 0 0 [1, 2] [1, 2, 3, 4], .serve (.deallocate 0),
        .serve (.arrive [1, 2, 3, 4, 7] 16 0), .serve (.allocate 1 5),
        .serve (.arrive [1, 2, 3, 4, 8] 16 0), .serve (.allocate 2 5)])
        (fun _ => True) SharesComputed := by
  intro hash
  have hpool : PoolState.create ⟨10, 2, true⟩ ⟨1, 2, true⟩ 4 true = .ok _ := rfl
  refine ⟨_, hpool, @run_sharesComputed _ ⟨10, 2, true⟩ ⟨1, 2, true⟩ 4 true _ hpool _ ?_⟩
  decide +kernel

end ContentState

end Xllm
