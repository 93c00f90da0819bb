import Mathlib.Tactic.Ring
import Mathlib.Data.Int.Basic
import Mathlib.Data.List.GetD

/-!
# Accepted tokens of a speculative step

A step with speculation validates several tokens for each sequence. A row of validated
tokens holds the ids that have been accepted, and -1 in the places behind them. The input of
the next step has been prepared before the row was known: it holds a placeholder for the
last token of each sequence, at the position of the first one. `spec_input_builder` reads
the rows of the last step, `EmbeddingCache` stores for each sequence what it has read, and
either is used to put the last token and its position into the input.

`int32_t` values are integers, and a failed `CHECK` is `none`.
-/

namespace Xllm.SpecBuilder

open List Option

structure TokenWithOffset where
  tokenId : Int := 0
  positionOffset : Int := 0

def resolveRow : List Int → TokenWithOffset → Option TokenWithOffset
  | [], resolved => some resolved
  | candidate :: rest, resolved =>
      if 0 ≤ candidate then
        if candidate < 2 ^ 31 then resolveRow rest ⟨candidate, resolved.positionOffset + 1⟩
        else none
      else resolveRow rest resolved

def resolveTokenWithPositionOffset (inputTokenId : Int) (lastStepTokens : List Int)
    (lastStepDecodeNum : Nat) : Option TokenWithOffset :=
  if lastStepDecodeNum = 0 then none
  else if 0 ≤ inputTokenId then some ⟨inputTokenId, 0⟩
  else
    let baseIdx := (-inputTokenId - 1).toNat * lastStepDecodeNum
    if baseIdx + lastStepDecodeNum ≤ lastStepTokens.length then
      resolveRow ((lastStepTokens.drop baseIdx).take lastStepDecodeNum) ⟨0, -1⟩
    else none

structure DecodeState (E P : Type) where
  embedding : Option E := none
  tokenId : Int := -1
  correctionTokenId : Int := -1
  correctionPositionOffset : Int := 0
  probs : Option P := none

/-- `accepted_tokens`, which may be undefined, or have one or two dimensions. -/
inductive AcceptedTokens where
  | undefined
  | flat (tokens : List Int)
  | rows (tokens : List (List Int))

def lastValid : List Int → Int → Int × Int → Int × Int
  | [], _, found => found
  | token :: rest, j, found =>
      lastValid rest (j + 1) (if 0 ≤ token then (Int.bmod token (2 ^ 32), j) else found)

def AcceptedTokens.correction (accepted : AcceptedTokens) (i : Nat) (tokenId : Int) :
    Option (Int × Int) :=
  match accepted with
  | .undefined => some (tokenId, 0)
  | .flat tokens => tokens[i]?.map fun token => (Int.bmod token (2 ^ 32), 0)
  | .rows tokens => tokens[i]?.map fun row => lastValid row 0 (-1, -1)

abbrev EmbeddingCache (E P : Type) := List (DecodeState E P)

namespace EmbeddingCache

variable {E P : Type}

def getTail (cache : EmbeddingCache E P) (id : Int) : Option (DecodeState E P) :=
  if 0 ≤ id then cache[id.toNat]? else none

def write (nextTokens : List Int) (embeddings : List E) (probs : List P)
    (accepted : AcceptedTokens) : Nat → List Int → EmbeddingCache E P → Option (EmbeddingCache E P)
  | _, [], cache => some cache
  | i, id :: ids, cache =>
      (cache.getTail id).bind fun _ =>
      (nextTokens[i]?).bind fun nextToken =>
      (accepted.correction i (Int.bmod nextToken (2 ^ 32))).bind fun correction =>
      (embeddings[i]?).bind fun embedding =>
      (probs[i]?).bind fun prob =>
        write nextTokens embeddings probs accepted (i + 1) ids
          (cache.set id.toNat {
            embedding := some embedding
            tokenId := Int.bmod nextToken (2 ^ 32)
            correctionTokenId := correction.1
            correctionPositionOffset := correction.2
            probs := some prob })

def readCorrections (cache : EmbeddingCache E P) (ids : List Int) :
    Option (List TokenWithOffset) :=
  if ids = [] then none
  else ids.mapM fun id =>
    (cache.getTail id).bind fun item =>
      if 0 ≤ item.correctionTokenId then
        some ⟨item.correctionTokenId, item.correctionPositionOffset⟩
      else none

end EmbeddingCache

structure DecodeCpuView where
  tokenIds : List Int
  positions : List Int
  kvSeqLens : List Int
  blockTables : List (List Int)

structure DecodeBuildBuffers where
  outTokenIds : List Int := []
  outPositions : List Int := []
  outKvSeqLens : List Int := []
  outQSeqLens : List Int := []
  outNewCacheSlots : List Int := []
  outBlockTables : List (List Int) := []
  kvMaxSeqLen : Int := 0

structure RowSpec where
  seqId : Nat := 0
  useInputToken : Bool := false
  tokenId : Int := 0
  positionOffset : Int := 0
  appendToken : Bool := true
  appendKvLen : Bool := true
  appendQLenOne : Bool := false
  appendBlockTable : Bool := false

def calcSlotId (position : Int) (blockTable : List Int) (blockSize : Nat) : Option Int :=
  if 0 < blockSize ∧ 0 ≤ position then
    (blockTable[position.toNat / blockSize]?).bind fun blockId =>
      if 0 ≤ blockId then some (blockId * blockSize + (position.toNat % blockSize : Nat)) else none
  else none

def resolveRowTokenId (view : DecodeCpuView) (row : RowSpec) : Option Int :=
  if row.useInputToken then view.tokenIds[row.seqId]? else some row.tokenId

/-- `append_decode_row`. A token and a length are looked up only if they are appended. -/
def appendDecodeRow (numSequences : Nat) (view : DecodeCpuView) (row : RowSpec) (blockSize : Nat)
    (buf : DecodeBuildBuffers) : Option DecodeBuildBuffers :=
  if row.seqId < numSequences then
    (view.positions[row.seqId]?).bind fun position =>
    (view.blockTables[row.seqId]?).bind fun blockTable =>
    (if row.appendToken then (resolveRowTokenId view row).map fun tokenId => [tokenId]
      else some []).bind fun tokenIds =>
    (calcSlotId (position + row.positionOffset) blockTable blockSize).bind fun slot =>
    (if row.appendKvLen then
        (view.kvSeqLens[row.seqId]?).map fun kvSeqLen => [kvSeqLen + row.positionOffset]
      else some []).map fun kvLens =>
      { outTokenIds := buf.outTokenIds ++ tokenIds
        outPositions := buf.outPositions ++ [position + row.positionOffset]
        outKvSeqLens := buf.outKvSeqLens ++ kvLens
        outQSeqLens := if row.appendQLenOne then buf.outQSeqLens ++ [1] else buf.outQSeqLens
        outNewCacheSlots := buf.outNewCacheSlots ++ [slot]
        outBlockTables := if row.appendBlockTable then buf.outBlockTables ++ [blockTable]
          else buf.outBlockTables
        kvMaxSeqLen := kvLens.foldl max buf.kvMaxSeqLen }
  else none

def appendDecodeRowFromLastStep (numSequences : Nat) (view : DecodeCpuView) (seqId : Nat)
    (inputTokenId : Int) (lastStepTokens : List Int) (lastStepDecodeNum blockSize : Nat)
    (buf : DecodeBuildBuffers) : Option DecodeBuildBuffers :=
  (resolveTokenWithPositionOffset inputTokenId lastStepTokens lastStepDecodeNum).bind
    fun resolved =>
      appendDecodeRow numSequences view
        { seqId := seqId, tokenId := resolved.tokenId, positionOffset := resolved.positionOffset }
        blockSize buf

/-- `SpeculativeWorkerImpl::update_input_by_last_step_output`, for next tokens with two
dimensions. -/
def updateInputByLastStep (view : DecodeCpuView) (numSequences blockSize : Nat)
    (nextTokens : List (List Int)) (lastStepDecodeNum : Nat) : Option DecodeBuildBuffers :=
  (List.range numSequences).foldlM (fun buf seqId =>
    (view.tokenIds[seqId]?).bind fun inputTokenId =>
      appendDecodeRowFromLastStep numSequences view seqId inputTokenId nextTokens.flatten
        lastStepDecodeNum blockSize buf) {}

/-- `MTPWorkerImpl::update_input_by_last_step_output`, for a batch with sequences. -/
def updateInputByCache {E P : Type} (view : DecodeCpuView) (numSequences blockSize : Nat)
    (cache : EmbeddingCache E P) (embeddingIds : List Int) : Option DecodeBuildBuffers :=
  (cache.readCorrections embeddingIds).bind fun corrections =>
    if corrections.length = numSequences then
      (List.range numSequences).foldlM (fun buf seqId =>
        (view.tokenIds[seqId]?).bind fun inputTokenId =>
        (corrections[seqId]?).bind fun correction =>
          let row : RowSpec :=
            if 0 ≤ inputTokenId then
              { seqId := seqId, tokenId := inputTokenId, positionOffset := 0 }
            else { seqId := seqId, tokenId := correction.tokenId,
                   positionOffset := correction.positionOffset }
          appendDecodeRow numSequences view row blockSize buf) {}
    else none

structure Accepted (width : Nat) (ids row : List Int) : Prop where
  nonempty : ids ≠ []
  token : ∀ id ∈ ids, 0 ≤ id ∧ id < 2 ^ 31
  fits : ids.length ≤ width
  row_eq : row = ids ++ replicate (width - ids.length) (-1)

/-- The last token of a row, and how far it stands behind the first one. -/
def lastAccepted (ids : List Int) : TokenWithOffset := ⟨ids.getLastD 0, ids.length - 1⟩

section

variable {width : Nat} {ids row : List Int}

@[simp] theorem resolveRow_fillers (m : Nat) (r : TokenWithOffset) :
    resolveRow (replicate m (-1)) r = some r := by
  induction m with
  | zero => rfl
  | succ m ih =>
      exact ih

theorem resolveRow_accepted (h : ∀ id ∈ ids, 0 ≤ id ∧ id < 2 ^ 31) (m : Nat)
    (r : TokenWithOffset) :
    resolveRow (ids ++ replicate m (-1)) r =
      some ⟨ids.getLastD r.tokenId, r.positionOffset + ids.length⟩ := by
  induction ids generalizing r with
  | nil =>
      rw [nil_append, resolveRow_fillers]
      exact congrArg some (by simp)
  | cons id ids ih =>
      obtain ⟨hnonneg, hsmall⟩ := h id mem_cons_self
      rw [cons_append, resolveRow, if_pos hnonneg, if_pos hsmall,
        ih fun i hi => h i (mem_cons_of_mem id hi)]
      simp only [getLastD_cons, length_cons, Option.some.injEq, TokenWithOffset.mk.injEq,
        true_and]
      omega

@[simp] theorem lastValid_fillers (m : Nat) (j : Int) (found : Int × Int) :
    lastValid (replicate m (-1)) j found = found := by
  induction m generalizing j with
  | zero => rfl
  | succ m ih =>
      exact ih (j + 1)

@[simp] theorem bmod_token {id : Int} (h : 0 ≤ id ∧ id < 2 ^ 31) : Int.bmod id (2 ^ 32) = id := by
  apply Int.bmod_eq_of_le <;> omega

theorem lastValid_accepted (h : ∀ id ∈ ids, 0 ≤ id ∧ id < 2 ^ 31) (hne : ids ≠ []) (m : Nat)
    (j : Int) (found : Int × Int) :
    lastValid (ids ++ replicate m (-1)) j found =
      (ids.getLastD 0, j + ids.length - 1) := by
  induction ids generalizing j found with
  | nil => exact absurd rfl hne
  | cons id ids ih =>
      have hid := h id mem_cons_self
      rw [cons_append, lastValid, if_pos hid.1, bmod_token hid]
      cases ids with
      | nil =>
          rw [nil_append, lastValid_fillers]
          simp
      | cons next ids =>
          rw [ih (fun i hi => h i (mem_cons_of_mem id hi)) (cons_ne_nil _ _)]
          simp only [getLastD_cons, length_cons, Prod.mk.injEq, true_and]
          omega

variable {rows : List (List Int)}

theorem row_of_flatten (hwidth : ∀ r ∈ rows, r.length = width) {i : Nat}
    (hi : rows[i]? = some row) :
    i * width + width ≤ rows.flatten.length ∧
      (rows.flatten.drop (i * width)).take width = row := by
  induction rows generalizing i with
  | nil => exact absurd hi (by simp)
  | cons first rows ih =>
      have hfirst := hwidth first mem_cons_self
      cases i with
      | zero =>
          obtain rfl : first = row := by simpa using hi
          rw [flatten_cons, length_append]
          refine ⟨by omega, ?_⟩
          rw [Nat.zero_mul, drop_zero, ← hfirst, take_left]
      | succ i =>
          obtain ⟨hbound, htake⟩ := ih (fun r hr => hwidth r (mem_cons_of_mem first hr))
            (i := i) (by simpa using hi)
          rw [flatten_cons, length_append, Nat.succ_mul]
          refine ⟨by omega, ?_⟩
          rw [Nat.add_comm, ← drop_drop, ← hfirst, drop_left, hfirst]
          exact htake

/-- A placeholder resolves to the last accepted token of its row. -/
theorem resolve_accepted (hwidth : ∀ r ∈ rows, r.length = width)
    {i : Nat} (hi : rows[i]? = some row) (h : Accepted width ids row) :
    resolveTokenWithPositionOffset (-(i + 1 : Nat)) rows.flatten width =
      some (lastAccepted ids) := by
  have hpos := List.length_pos_iff.2 h.nonempty
  have hfits := h.fits
  obtain ⟨hbound, htake⟩ := row_of_flatten hwidth hi
  have hidx : (-(-((i + 1 : Nat) : Int)) - 1).toNat = i := by omega
  rw [resolveTokenWithPositionOffset, if_neg (by omega), if_neg (by omega)]
  rw [hidx, if_pos hbound, htake, h.row_eq, resolveRow_accepted h.token]
  simp only [lastAccepted, Option.some.injEq, TokenWithOffset.mk.injEq, true_and]
  omega

variable {E P : Type} {cache : EmbeddingCache E P}

theorem getTail_set {id id' : Int} (tail : DecodeState E P) (h : 0 ≤ id ∧ id.toNat < cache.length)
    (hne : id' ≠ id) : EmbeddingCache.getTail (cache.set id.toNat tail) id' =
      cache.getTail id' := by
  unfold EmbeddingCache.getTail
  split
  case isTrue hpos => rw [getElem?_set_ne (by omega)]
  case isFalse => rfl

theorem getTail_set_self {id : Int} (tail : DecodeState E P)
    (h : 0 ≤ id ∧ id.toNat < cache.length) :
    EmbeddingCache.getTail (cache.set id.toNat tail) id = some tail := by
  rw [EmbeddingCache.getTail, if_pos h.1, getElem?_set_self h.2]

/-- `write` returns, and the entry of an id holds what has been written for it last. -/
theorem write_spec {nextTokens : List Int} {embeddings : List E} {probs : List P}
    {i : Nat} {embeddingIds : List Int}
    (hids : ∀ id ∈ embeddingIds, 0 ≤ id ∧ id.toNat < cache.length)
    (htokens : i + embeddingIds.length ≤ nextTokens.length)
    (hembeddings : i + embeddingIds.length ≤ embeddings.length)
    (hprobs : i + embeddingIds.length ≤ probs.length)
    (hrows : i + embeddingIds.length ≤ rows.length) :
    ∃ after, EmbeddingCache.write nextTokens embeddings probs (.rows rows) i embeddingIds cache =
        some after ∧
      (∀ id, id ∉ embeddingIds → EmbeddingCache.getTail after id = cache.getTail id) ∧
      ∀ (n : Nat) (id : Int) (row : List Int), embeddingIds[n]? = some id →
        id ∉ embeddingIds.drop (n + 1) → rows[i + n]? = some row →
        ∃ tail, EmbeddingCache.getTail after id = some tail ∧
          (tail.correctionTokenId, tail.correctionPositionOffset) = lastValid row 0 (-1, -1) := by
  induction embeddingIds generalizing i cache with
  | nil => exact ⟨cache, rfl, fun _ _ => rfl, fun n id row h => absurd h (by simp)⟩
  | cons id embeddingIds ih =>
      have hid := hids id mem_cons_self
      simp only [length_cons] at htokens hembeddings hprobs hrows
      have htail : cache.getTail id = some cache[id.toNat] := by
        rw [EmbeddingCache.getTail, if_pos hid.1, getElem?_eq_getElem hid.2]
      rw [EmbeddingCache.write, htail, bind_some, getElem?_eq_getElem (by omega),
        bind_some, AcceptedTokens.correction, getElem?_eq_getElem (by omega),
        map_some, bind_some, getElem?_eq_getElem (by omega), bind_some,
        getElem?_eq_getElem (by omega), bind_some]
      generalize htail' : DecodeState.mk (E := E) (P := P) _ _ _ _ _ = tail
      obtain ⟨after, hwrite, hother, hwritten⟩ := @ih (cache.set id.toNat tail) (i + 1)
        (fun id' h' => by
          rw [List.length_set]
          exact hids id' (mem_cons_of_mem id h'))
        (by omega) (by omega) (by omega) (by omega)
      refine ⟨after, hwrite, ?_, ?_⟩
      · intro id' h'
        rw [hother id' fun hmem => h' (mem_cons_of_mem id hmem)]
        exact getTail_set tail hid fun heq => h' (heq ▸ mem_cons_self)
      · intro n id' row hn hlast hrow
        cases n with
        | zero =>
            obtain rfl : id = id' := by simpa using hn
            refine ⟨tail, ?_, ?_⟩
            · rw [hother id (by simpa using hlast)]
              exact getTail_set_self tail hid
            · rw [← htail']
              rw [Nat.add_zero, getElem?_eq_getElem (by omega), Option.some.injEq] at hrow
              rw [hrow]
        | succ n =>
            exact hwritten n id' row (by simpa using hn) (by simpa using hlast)
              (by rw [← hrow]; congr 1; omega)

theorem readCorrections_accepted {embeddingIds : List Int} {accepted : List (List Int)}
    (hne : embeddingIds ≠ [])
    (h : List.Forall₂ (fun id ids => ids ≠ [] ∧ (∀ token ∈ ids, 0 ≤ token ∧ token < 2 ^ 31) ∧
      ∃ tail, EmbeddingCache.getTail cache id = some tail ∧
        (tail.correctionTokenId, tail.correctionPositionOffset) =
          ((lastAccepted ids).tokenId, (lastAccepted ids).positionOffset)) embeddingIds accepted) :
    cache.readCorrections embeddingIds = some (accepted.map lastAccepted) := by
  rw [EmbeddingCache.readCorrections, if_neg hne]
  clear hne
  induction h with
  | nil => rfl
  | @cons id ids embeddingIds accepted hid _ ih =>
      obtain ⟨hne, htoken, tail, htail, heq⟩ := hid
      obtain ⟨htokenId, hoffset⟩ := Prod.mk.inj heq
      have hnonneg : 0 ≤ (lastAccepted ids).tokenId := by
        have hlast := getLast_mem hne
        rw [lastAccepted, getLastD_eq_getLast?, getLast?_eq_some_getLast hne]
        exact (htoken _ hlast).1
      rw [mapM_cons, htail, bind_some, htokenId, hoffset, if_pos hnonneg, ih]
      rfl

def DecodeBuildBuffers.push (buf : DecodeBuildBuffers) (tokenId position kvLen slot : Int) :
    DecodeBuildBuffers :=
  { buf with
    outTokenIds := buf.outTokenIds ++ [tokenId]
    outPositions := buf.outPositions ++ [position]
    outKvSeqLens := buf.outKvSeqLens ++ [kvLen]
    outNewCacheSlots := buf.outNewCacheSlots ++ [slot]
    kvMaxSeqLen := max buf.kvMaxSeqLen kvLen }

theorem appendDecodeRow_eq {numSequences blockSize seqId : Nat} {view : DecodeCpuView}
    {position kvSeqLen slot : Int} {blockTable : List Int} {r : TokenWithOffset}
    (buf : DecodeBuildBuffers) (hid : seqId < numSequences)
    (hposition : view.positions[seqId]? = some position)
    (hkv : view.kvSeqLens[seqId]? = some kvSeqLen)
    (htable : view.blockTables[seqId]? = some blockTable)
    (hslot : calcSlotId (position + r.positionOffset) blockTable blockSize = some slot) :
    appendDecodeRow numSequences view
        { seqId := seqId, tokenId := r.tokenId, positionOffset := r.positionOffset } blockSize buf =
      some (buf.push r.tokenId (position + r.positionOffset)
        (kvSeqLen + r.positionOffset) slot) := by
  simp only [appendDecodeRow, if_pos hid, hposition, hkv, htable, hslot,
    bind_some]
  rfl

theorem foldlM_push {step : DecodeBuildBuffers → Nat → Option DecodeBuildBuffers}
    (tokenId position kvLen slot : Nat → Int) (seqIds : List Nat)
    (h : ∀ i ∈ seqIds, ∀ buf,
      step buf i = some (buf.push (tokenId i) (position i) (kvLen i) (slot i)))
    (buf : DecodeBuildBuffers) : ∃ after, seqIds.foldlM step buf = some after ∧
      after.outTokenIds = buf.outTokenIds ++ seqIds.map tokenId ∧
      after.outPositions = buf.outPositions ++ seqIds.map position ∧
      after.outKvSeqLens = buf.outKvSeqLens ++ seqIds.map kvLen := by
  induction seqIds generalizing buf with
  | nil => exact ⟨buf, rfl, by simp, by simp, by simp⟩
  | cons i seqIds ih =>
      obtain ⟨after, hfold, htokens, hpositions, hlens⟩ :=
        ih (fun j hj => h j (mem_cons_of_mem i hj))
          (buf.push (tokenId i) (position i) (kvLen i) (slot i))
      refine ⟨after, ?_, ?_, ?_, ?_⟩
      · rw [foldlM_cons, h i mem_cons_self buf]
        exact hfold
      · rw [htokens, DecodeBuildBuffers.push, append_assoc]
        rfl
      · rw [hpositions, DecodeBuildBuffers.push, append_assoc]
        rfl
      · rw [hlens, DecodeBuildBuffers.push, append_assoc]
        rfl

end

end Xllm.SpecBuilder
