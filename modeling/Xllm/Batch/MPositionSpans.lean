import Mathlib.Algebra.Order.Ring.Int
import Xllm.Batch.MPosition

/-!
# The position matrix of a multimodal prompt

A prompt is an arrangement of text, images and videos. The input processor of a model lays the
spans out as tokens: a grid of placeholders for every image, and for every video either one grid
or one for each frame, between the tokens that mark them. Every piece of the layout is numbered on
from the largest position so far.
-/

namespace Xllm

open Util List

/-- A span of a multimodal prompt. The sizes are those of the merged grid. -/
inductive MMSpan
  | text (tokens : List Token)
  | image (t h w : Nat)
  | video (t h w : Nat) (secondPerGrid : ℚ≥0) (timestamps : List (List Token))

/-- A run of text tokens or of placeholders. `scale` is the distance of two frames. -/
inductive MMPiece
  | text (tokens : List Token)
  | grid (isVideo : Bool) (t h w : Nat) (scale : ℚ≥0)

/-- The pieces that the input processor of the model lays a span out as. -/
def MMSpan.pieces (args : MRopeArgs) : MMSpan → List MMPiece
  | .text tokens => [.text tokens]
  | .image t h w =>
      match args.kind with
      | .glm4v =>
          [.text [args.imageStartTokenId], .grid false t h w 1, .text [args.imageEndTokenId]]
      | .qwen3Vl =>
          [.text [args.visionStartTokenId], .grid false t h w 1, .text [args.visionEndTokenId]]
      | .other =>
          [.text [args.visionStartTokenId], .grid false t h w (1 * args.mmTokensPerSecond),
            .text [args.visionEndTokenId]]
  | .video t h w secondPerGrid timestamps =>
      match args.kind with
      | .glm4v =>
          .text [args.videoStartTokenId] ::
            (timestamps.flatMap fun stamp =>
              [.text [args.imageStartTokenId], .grid true 1 h w 1,
                .text (args.imageEndTokenId :: stamp)]) ++
            [.text [args.videoEndTokenId]]
      | .qwen3Vl =>
          timestamps.flatMap fun stamp =>
            [.text (stamp ++ [args.visionStartTokenId]), .grid true 1 h w 1,
              .text [args.visionEndTokenId]]
      | .other =>
          [.text [args.visionStartTokenId],
            .grid true t h w (secondPerGrid * args.mmTokensPerSecond),
            .text [args.visionEndTokenId]]

/-- The token that stands for a part of an image or a frame. -/
def MRopeArgs.placeholder (args : MRopeArgs) (isVideo : Bool) : Token :=
  if isVideo && args.kind != .glm4v then args.videoTokenId else args.imageTokenId

def MMPiece.tokens (args : MRopeArgs) : MMPiece → List Token
  | .text tokens => tokens
  | .grid isVideo t h w _ => replicate (t * h * w) (args.placeholder isVideo)

def topPosition (columns : List PosColumn) : Int := ((posValues columns).max?).elim 0 (· + 1)

def placeText (columns : List PosColumn) (textLen : Nat) : List PosColumn :=
  columns ++ textPos textLen (topPosition columns)

def placeGrid (columns : List PosColumn) (t h w : Nat) (scale : ℚ≥0) : List PosColumn :=
  columns ++ (gridPos t h w (scaledIndex scale)).map (·.shift (topPosition columns))

/-- The columns with those of one more piece. -/
def MMPiece.place (columns : List PosColumn) : MMPiece → List PosColumn
  | .text tokens => placeText columns tokens.length
  | .grid _ t h w scale => placeGrid columns t h w scale

def layout (args : MRopeArgs) (spans : List MMSpan) : List MMPiece := spans.flatMap (·.pieces args)

def promptTokens (args : MRopeArgs) (spans : List MMSpan) : List Token :=
  (layout args spans).flatMap (·.tokens args)

def promptColumns (args : MRopeArgs) (spans : List MMSpan) : List PosColumn :=
  (layout args spans).foldl MMPiece.place []

/-- The position matrix of the prompt and the tokens generated behind it. -/
def sequenceColumns (args : MRopeArgs) (spans : List MMSpan) (numGenerated : Nat) :
    List PosColumn :=
  placeText (promptColumns args spans) numGenerated

def MMSpan.imageGrid (mergeSize : Nat) : MMSpan → List GridThw
  | .image t h w => [⟨t, h * mergeSize, w * mergeSize⟩]
  | _ => []

def MMSpan.videoGrid (mergeSize : Nat) : MMSpan → List GridThw
  | .video t h w _ _ => [⟨t, h * mergeSize, w * mergeSize⟩]
  | _ => []

def MMSpan.secondPerGrid : MMSpan → List ℚ≥0
  | .video _ _ _ seconds _ => [seconds]
  | _ => []

/-- The tensors that the image processor leaves in `mm_data`. -/
def mmData (args : MRopeArgs) (spans : List MMSpan) : MRopeData where
  imageGridThw := spans.flatMap (·.imageGrid args.mmSpatialMergeSize)
  videoGridThw := spans.flatMap (·.videoGrid args.mmSpatialMergeSize)
  secondPerGridTs := spans.flatMap (·.secondPerGrid)

/-- The ids by which the positions tell vision input from text. -/
def MRopeArgs.markers (args : MRopeArgs) : List Token :=
  match args.kind with
  | .glm4v => [args.imageTokenId, args.videoStartTokenId, args.videoEndTokenId]
  | _ => [args.visionStartTokenId, args.imageTokenId, args.videoTokenId]

/-- Text, or a delimiter that is not a marker. -/
def PlainText (args : MRopeArgs) (tokens : List Token) : Prop :=
  ∀ token ∈ tokens, token ∉ args.markers

/-- A model whose special tokens are told apart. -/
structure MRopeArgs.Valid (args : MRopeArgs) : Prop where
  markers_nodup : args.markers.Nodup
  merge_pos : 0 < args.mmSpatialMergeSize
  delimiters : match args.kind with
    | .glm4v => PlainText args [args.imageStartTokenId, args.imageEndTokenId]
    | _ => PlainText args [args.visionEndTokenId]

/-- A span whose text is plain, whose grid is not empty, and whose frames all have a timestamp. -/
def MMSpan.Valid (args : MRopeArgs) : MMSpan → Prop
  | .text tokens => PlainText args tokens
  | .image t h w => 0 < t ∧ 0 < h ∧ 0 < w
  | .video t h w _ timestamps => 0 < t ∧ 0 < h ∧ 0 < w ∧ timestamps.length = t ∧
      ∀ stamp ∈ timestamps, PlainText args stamp

variable {columns : List PosColumn}

theorem mem_posValues {v : Int} :
    v ∈ posValues columns ↔ ∃ c ∈ columns, v = c.t ∨ v = c.h ∨ v = c.w := by
  simp [posValues]

@[simp] theorem posValues_append (cs ds : List PosColumn) :
    posValues (cs ++ ds) = posValues cs ++ posValues ds := flatMap_append

theorem lt_topPosition {v : Int} (h : v ∈ posValues columns) :
    v < topPosition columns := by
  cases hmax : (posValues columns).max? with
  | none => simp [List.max?_eq_none_iff.mp hmax] at h
  | some m =>
      have := (List.max?_eq_some_iff.mp hmax).2 v h
      simp only [topPosition, hmax, Option.elim_some]
      omega

theorem exists_max_of_behind {columns new : List PosColumn} (hne : new ≠ [])
    (hbehind : ∀ v ∈ posValues new, topPosition columns ≤ v) :
    ∃ m, (posValues new).max? = some m ∧ topPosition (columns ++ new) = m + 1 := by
  obtain ⟨c, rest, rfl⟩ := exists_cons_of_ne_nil hne
  obtain ⟨m, hm⟩ : ∃ m, (posValues (c :: rest)).max? = some m :=
    Option.isSome_iff_exists.mp (by simp [posValues])
  obtain ⟨hmem, hle⟩ := List.max?_eq_some_iff.mp hm
  have hall : (posValues (columns ++ c :: rest)).max? = some m := by
    rw [posValues_append]
    refine List.max?_eq_some_iff.mpr ⟨mem_append_right _ hmem, fun v hv => ?_⟩
    rcases List.mem_append.mp hv with hv | hv
    · have := lt_topPosition hv
      have := hbehind m hmem
      omega
    · exact hle v hv
  exact ⟨m, hm, by rw [topPosition, hall]; rfl⟩

@[simp] theorem textPos_succ (n : Nat) (s : Int) :
    textPos (n + 1) s = textPos n s ++ [uniformColumn (s + n)] := by
  simp [textPos, range_succ]

@[simp] theorem textPos_zero (s : Int) : textPos 0 s = [] := rfl

@[simp] theorem length_textPos (n : Nat) (s : Int) : (textPos n s).length = n := by
  simp [textPos]

theorem textPos_add (a b : Nat) (s : Int) :
    textPos (a + b) s = textPos a s ++ textPos b (s + a) := by
  induction b with
  | zero => simp
  | succ b ih =>
      rw [← Nat.add_assoc, textPos_succ, ih, textPos_succ]
      simp [Int.add_assoc]

theorem le_of_mem_textPos {n : Nat} {s v : Int} (h : v ∈ posValues (textPos n s)) : s ≤ v := by
  obtain ⟨c, hc, hv⟩ := mem_posValues.mp h
  obtain ⟨i, -, rfl⟩ := List.mem_map.mp hc
  simp only [uniformColumn] at hv
  omega

@[simp] theorem topPosition_placeText (columns : List PosColumn) (n : Nat) :
    topPosition (placeText columns n) = topPosition columns + n := by
  cases n with
  | zero => simp [placeText]
  | succ n =>
      have hne : textPos (n + 1) (topPosition columns) ≠ [] := by simp [textPos_succ]
      obtain ⟨m, hm, htop⟩ := exists_max_of_behind hne fun v => le_of_mem_textPos
      obtain ⟨hmem, hle⟩ := List.max?_eq_some_iff.mp hm
      have hlast : topPosition columns + n ≤ m := by
        refine hle _ (mem_posValues.mpr ⟨uniformColumn (topPosition columns + n), ?_, .inl rfl⟩)
        simp [textPos_succ]
      obtain ⟨c, hc, hv⟩ := mem_posValues.mp hmem
      obtain ⟨i, hi, rfl⟩ := List.mem_map.mp hc
      have hi := List.mem_range.mp hi
      simp only [uniformColumn] at hv
      rw [placeText]
      omega

@[simp] theorem placeText_placeText (columns : List PosColumn) (a b : Nat) :
    placeText (placeText columns a) b = placeText columns (a + b) := by
  rw [placeText, topPosition_placeText, placeText, placeText, textPos_add, append_assoc]

@[simp] theorem placeText_zero (columns : List PosColumn) : placeText columns 0 = columns := by
  simp [placeText]

@[simp] theorem length_placeText (columns : List PosColumn) (n : Nat) :
    (placeText columns n).length = columns.length + n := by simp [placeText]

@[simp] theorem length_placeGrid (columns : List PosColumn) (t h w : Nat) (scale : ℚ≥0) :
    (placeGrid columns t h w scale).length = columns.length + t * h * w := by
  simp [placeGrid, gridPos, Nat.mul_assoc]

/-- The groups of the loop make up the columns, and the last of them ends at the top. -/
structure Placed (llmPosIds : List (List PosColumn)) (columns : List PosColumn) : Prop where
  flatten : llmPosIds.flatten = columns
  next : nextStIdx llmPosIds = .ok (topPosition columns)

theorem placed_nil : Placed [] [] := ⟨rfl, rfl⟩

variable {llmPosIds : List (List PosColumn)}

theorem Placed.push {columns new : List PosColumn}
    (h : Placed llmPosIds columns) (hne : new ≠ [])
    (hbehind : ∀ v ∈ posValues new, topPosition columns ≤ v) :
    Placed (llmPosIds ++ [new]) (columns ++ new) := by
  obtain ⟨m, hm, htop⟩ := exists_max_of_behind hne hbehind
  refine ⟨by simp [h.flatten], ?_⟩
  simp [nextStIdx, maxPosition, hm, htop, Except.map]

theorem Placed.push_text (h : Placed llmPosIds columns) {n : Nat} (hn : 0 < n) :
    Placed (llmPosIds ++ [textPos n (topPosition columns)]) (placeText columns n) := by
  refine h.push (fun hnil => ?_) fun v => le_of_mem_textPos
  have := congrArg List.length hnil
  simp only [length_textPos, length_nil] at this
  omega

theorem gridPos_ne_nil {t h w : Nat} (ht : 0 < t) (hh : 0 < h) (hw : 0 < w)
    (tIndex : Nat → Int) : gridPos t h w tIndex ≠ [] := by
  intro hnil
  have hlength : (gridPos t h w tIndex).length = t * (h * w) := by simp [gridPos]
  rw [hnil, length_nil] at hlength
  have := Nat.mul_pos ht (Nat.mul_pos hh hw)
  omega

theorem scaledIndex_nonneg (scale : ℚ≥0) (i : Nat) : 0 ≤ scaledIndex scale i :=
  Int.natCast_nonneg _

theorem le_of_mem_grid {t h w : Nat} {scale : ℚ≥0} {s v : Int}
    (hv : v ∈ posValues ((gridPos t h w (scaledIndex scale)).map (·.shift s))) : s ≤ v := by
  obtain ⟨c, hc, hv⟩ := mem_posValues.mp hv
  obtain ⟨d, hd, rfl⟩ := List.mem_map.mp hc
  simp only [gridPos, mem_flatMap, mem_map] at hd
  obtain ⟨i, -, j, -, k, -, rfl⟩ := hd
  have := scaledIndex_nonneg scale i
  simp only [PosColumn.shift] at hv
  omega

theorem Placed.push_grid (h : Placed llmPosIds columns) {t height w : Nat} (ht : 0 < t)
    (hh : 0 < height) (hw : 0 < w) (scale : ℚ≥0) : Placed (llmPosIds ++
      [(gridPos t height w (scaledIndex scale)).map (·.shift (topPosition columns))])
      (placeGrid columns t height w scale) :=
  h.push (by simpa using gridPos_ne_nil ht hh hw _) fun _ => le_of_mem_grid

theorem Placed.finish (h : Placed llmPosIds columns) (hne : columns ≠ []) (n : Nat) :
    finishPositions llmPosIds n = .ok (columns, topPosition columns - n) := by
  have hids : llmPosIds ≠ [] := by
    rintro rfl
    exact hne h.flatten.symm
  obtain ⟨m, hm⟩ : ∃ m, (posValues columns).max? = some m := by
    obtain ⟨c, rest, rfl⟩ := exists_cons_of_ne_nil hne
    exact Option.isSome_iff_exists.mp (by simp [posValues])
  have hmax : maxPosition columns = .ok m := by simp [maxPosition, hm]
  have htop : topPosition columns = m + 1 := by simp [topPosition, hm]
  rw [finishPositions, if_neg (by simpa using hids), h.flatten, hmax, htop]
  rfl

/-- A grid of placeholders with the text in front of it. -/
structure VisionBlock where
  text : List Token
  isVideo : Bool
  t : Nat
  h : Nat
  w : Nat
  scale : ℚ≥0

namespace VisionBlock

def placeholders (args : MRopeArgs) (b : VisionBlock) : List Token :=
  replicate (b.t * b.h * b.w) (args.placeholder b.isVideo)

def tokens (args : MRopeArgs) (b : VisionBlock) : List Token := b.text ++ b.placeholders args

def place (columns : List PosColumn) (b : VisionBlock) : List PosColumn :=
  placeGrid (placeText columns b.text.length) b.t b.h b.w b.scale

def gridThw (args : MRopeArgs) (b : VisionBlock) : GridThw :=
  ⟨b.t, b.h * args.mmSpatialMergeSize, b.w * args.mmSpatialMergeSize⟩

end VisionBlock

/-- The grids of a layout with the text in front of each, and the text behind the last.
`pending` is the text in front of the layout. -/
def visionBlocks : List Token → List MMPiece → List VisionBlock × List Token
  | pending, [] => ([], pending)
  | pending, .text tokens :: rest => visionBlocks (pending ++ tokens) rest
  | pending, .grid isVideo t h w scale :: rest =>
      let behind := visionBlocks [] rest
      (⟨pending, isVideo, t, h, w, scale⟩ :: behind.1, behind.2)

theorem visionBlocks_append (pending : List Token) (xs ys : List MMPiece) :
    visionBlocks pending (xs ++ ys) =
      ((visionBlocks pending xs).1 ++ (visionBlocks (visionBlocks pending xs).2 ys).1,
        (visionBlocks (visionBlocks pending xs).2 ys).2) := by
  induction xs generalizing pending with
  | nil => rfl
  | cons piece xs ih =>
      cases piece with
      | text tokens => exact ih (pending ++ tokens)
      | grid isVideo t h w scale =>
          rw [cons_append, visionBlocks, ih]
          rfl

theorem visionBlocks_tokens (args : MRopeArgs) (pending : List Token) (pieces : List MMPiece) :
    (visionBlocks pending pieces).1.flatMap (·.tokens args) ++ (visionBlocks pending pieces).2 =
      pending ++ pieces.flatMap (·.tokens args) := by
  induction pieces generalizing pending with
  | nil => simp [visionBlocks]
  | cons piece pieces ih =>
      cases piece with
      | text tokens =>
          rw [visionBlocks, ih, append_assoc]
          rfl
      | grid isVideo t h w scale =>
          simp only [visionBlocks, flatMap_cons, append_assoc, ih]
          simp [VisionBlock.tokens, VisionBlock.placeholders, MMPiece.tokens]

theorem visionBlocks_place (pending : List Token) (pieces : List MMPiece)
    (columns : List PosColumn) :
    placeText ((visionBlocks pending pieces).1.foldl VisionBlock.place columns)
        (visionBlocks pending pieces).2.length =
      pieces.foldl MMPiece.place (placeText columns pending.length) := by
  induction pieces generalizing pending columns with
  | nil => rfl
  | cons piece pieces ih =>
      cases piece with
      | text tokens =>
          rw [visionBlocks, ih, foldl_cons, MMPiece.place, placeText_placeText,
            length_append]
      | grid isVideo t h w scale =>
          simp only [visionBlocks, foldl_cons, ih]
          simp [VisionBlock.place, MMPiece.place]

theorem length_foldl_place (args : MRopeArgs) (bs : List VisionBlock)
    (columns : List PosColumn) :
    (bs.foldl VisionBlock.place columns).length =
      columns.length + (bs.flatMap (·.tokens args)).length := by
  induction bs generalizing columns with
  | nil => rfl
  | cons b bs ih =>
      rw [foldl_cons, ih]
      simp [VisionBlock.place, VisionBlock.tokens, VisionBlock.placeholders]
      omega

def blocksOf (isVideo : Bool) (bs : List VisionBlock) : List VisionBlock :=
  bs.filter (·.isVideo == isVideo)

@[simp] theorem blocksOf_append (isVideo : Bool) (bs cs : List VisionBlock) :
    blocksOf isVideo (bs ++ cs) = blocksOf isVideo bs ++ blocksOf isVideo cs :=
  filter_append ..

def MRopeArgs.imageScale (args : MRopeArgs) : ℚ≥0 :=
  match args.kind with
  | .other => 1 * args.mmTokensPerSecond
  | _ => 1

def MMSpan.videoRows (args : MRopeArgs) : MMSpan → List (GridThw × ℚ≥0)
  | .video t h w secondPerGrid _ =>
      match args.kind with
      | .other => [(⟨t, h * args.mmSpatialMergeSize, w * args.mmSpatialMergeSize⟩,
          secondPerGrid * args.mmTokensPerSecond)]
      | _ => replicate t
          (⟨1, h * args.mmSpatialMergeSize, w * args.mmSpatialMergeSize⟩, 1)
  | _ => []

def blockRows (args : MRopeArgs) (isVideo : Bool) (bs : List VisionBlock) :
    List (GridThw × ℚ≥0) :=
  (blocksOf isVideo bs).map fun b => (b.gridThw args, b.scale)

@[simp] theorem blockRows_append (args : MRopeArgs) (isVideo : Bool) (bs cs : List VisionBlock) :
    blockRows args isVideo (bs ++ cs) = blockRows args isVideo bs ++ blockRows args isVideo cs := by
  simp [blockRows]

theorem blockRows_frames (args : MRopeArgs) (isVideo : Bool) (h w : Nat)
    (front back : List Token → List Token) (stamps : List (List Token)) (pending : List Token) :
    blockRows args isVideo
        (visionBlocks pending (stamps.flatMap fun stamp =>
          [.text (front stamp), .grid true 1 h w 1, .text (back stamp)])).1 =
      if isVideo then replicate stamps.length
        (⟨1, h * args.mmSpatialMergeSize, w * args.mmSpatialMergeSize⟩, 1) else [] := by
  induction stamps generalizing pending with
  | nil => cases isVideo <;> rfl
  | cons stamp stamps ih =>
      rw [flatMap_cons, visionBlocks_append, blockRows_append, ih]
      cases isVideo <;>
        simp [visionBlocks, blockRows, blocksOf, VisionBlock.gridThw, replicate_succ]

/-- The blocks of a span have its grid rows. -/
theorem blockRows_pieces (args : MRopeArgs) {span : MMSpan} (hspan : span.Valid args)
    (pending : List Token) :
    blockRows args false (visionBlocks pending (span.pieces args)).1 =
        (span.imageGrid args.mmSpatialMergeSize).map (·, args.imageScale) ∧
      blockRows args true (visionBlocks pending (span.pieces args)).1 = span.videoRows args := by
  cases span with
  | text tokens => exact ⟨rfl, rfl⟩
  | image t h w =>
      unfold MMSpan.pieces MRopeArgs.imageScale
      cases args.kind <;> exact ⟨rfl, rfl⟩
  | video t h w secondPerGrid timestamps =>
      obtain ⟨-, -, -, hlength, -⟩ := hspan
      unfold MMSpan.pieces MMSpan.videoRows
      cases args.kind with
      | other => exact ⟨rfl, rfl⟩
      | qwen3Vl =>
          have hframes := fun isVideo => blockRows_frames args isVideo h w
            (· ++ [args.visionStartTokenId]) (fun _ => [args.visionEndTokenId]) timestamps pending
          simp only [hframes, hlength]
          exact ⟨rfl, rfl⟩
      | glm4v =>
          have hframes := fun isVideo => blockRows_frames args isVideo h w
            (fun _ => [args.imageStartTokenId]) (args.imageEndTokenId :: ·) timestamps
            (pending ++ [args.videoStartTokenId])
          simp only [visionBlocks, visionBlocks_append, append_nil, hframes,
            hlength]
          exact ⟨rfl, rfl⟩

/-- The grid rows of a layout are those of its spans. -/
theorem blockRows_layout (args : MRopeArgs) {spans : List MMSpan}
    (hspans : ∀ span ∈ spans, span.Valid args) (pending : List Token) :
    blockRows args false (visionBlocks pending (layout args spans)).1 =
        (mmData args spans).imageGridThw.map (·, args.imageScale) ∧
      blockRows args true (visionBlocks pending (layout args spans)).1 =
        spans.flatMap (·.videoRows args) := by
  induction spans generalizing pending with
  | nil => exact ⟨rfl, rfl⟩
  | cons span spans ih =>
      obtain ⟨himage, hvideo⟩ := blockRows_pieces args (hspans span mem_cons_self) pending
      obtain ⟨himages, hvideos⟩ := ih (fun s hs => hspans s (mem_cons_of_mem _ hs))
        (visionBlocks pending (span.pieces args)).2
      have hlayout : layout args (span :: spans) = span.pieces args ++ layout args spans :=
        flatMap_cons ..
      rw [hlayout, visionBlocks_append, blockRows_append, blockRows_append, himage, hvideo,
        himages, hvideos]
      simp [mmData]

variable {args : MRopeArgs}

theorem videoRows_other (hkind : args.kind = .other) (spans : List MMSpan) :
    (spans.flatMap (·.videoRows args)).map Prod.fst = (mmData args spans).videoGridThw ∧
      (spans.flatMap (·.videoRows args)).map Prod.snd =
        (mmData args spans).secondPerGridTs.map fun seconds : ℚ≥0 =>
          seconds * args.mmTokensPerSecond := by
  induction spans with
  | nil => exact ⟨rfl, rfl⟩
  | cons span spans ih =>
      obtain ⟨hgrids, hscales⟩ := ih
      simp only [mmData, flatMap_cons, map_append] at hgrids hscales ⊢
      rw [hgrids, hscales]
      cases span <;> simp [MMSpan.videoRows, MMSpan.videoGrid, MMSpan.secondPerGrid, hkind]

theorem videoRows_frames (hkind : args.kind ≠ .other) (spans : List MMSpan) :
    spans.flatMap (·.videoRows args) = (frameGrids (mmData args spans).videoGridThw).map
      (·, 1) := by
  induction spans with
  | nil => rfl
  | cons span spans ih =>
      simp only [mmData, frameGrids, flatMap_cons, flatMap_append, map_append] at ih ⊢
      congr 1
      cases span with
      | text tokens => rfl
      | image t h w => rfl
      | video t h w secondPerGrid timestamps =>
          cases hk : args.kind <;> simp_all [MMSpan.videoRows, MMSpan.videoGrid]

theorem rowAt_next {α : Type*} {done rest : List VisionBlock} {b : VisionBlock}
    (f : VisionBlock → α) (isVideo : Bool) (hb : b.isVideo = isVideo) :
    rowAt ((blocksOf isVideo (done ++ b :: rest)).map f) (blocksOf isVideo done).length =
      .ok (f b) := by
  have hsplit : blocksOf isVideo (done ++ b :: rest) =
      blocksOf isVideo done ++ b :: blocksOf isVideo rest := by
    simp [blocksOf, hb]
  rw [rowAt, hsplit]
  simp

/-- The columns after one more block. -/
theorem placed_step {done : List VisionBlock}
    {b : VisionBlock} (hplaced : Placed llmPosIds (done.foldl VisionBlock.place []))
    (htext : 0 < b.text.length) (ht : 0 < b.t) (hh : 0 < b.h) (hw : 0 < b.w) :
    Placed (llmPosIds ++
        [textPos b.text.length (topPosition (done.foldl VisionBlock.place []))] ++
        [(gridPos b.t b.h b.w (scaledIndex b.scale)).map
          (·.shift (topPosition (placeText (done.foldl VisionBlock.place []) b.text.length)))])
      ((done ++ [b]).foldl VisionBlock.place []) := by
  rw [foldl_append]
  exact (hplaced.push_text htext).push_grid ht hh hw b.scale

theorem PlainText.append {xs ys : List Token} (hxs : PlainText args xs) (hys : PlainText args ys) :
    PlainText args (xs ++ ys) := by
  intro token hmem
  rcases List.mem_append.mp hmem with hmem | hmem
  · exact hxs token hmem
  · exact hys token hmem

theorem prompt_blocks (args : MRopeArgs) (spans : List MMSpan) (text : List Token) :
    promptTokens args spans ++ text =
        (visionBlocks [] (layout args spans)).1.flatMap (·.tokens args) ++
          ((visionBlocks [] (layout args spans)).2 ++ text) ∧
      sequenceColumns args spans text.length =
        placeText ((visionBlocks [] (layout args spans)).1.foldl VisionBlock.place [])
          ((visionBlocks [] (layout args spans)).2 ++ text).length := by
  have htokens := visionBlocks_tokens args [] (layout args spans)
  have hplace := visionBlocks_place [] (layout args spans) []
  constructor
  · rw [← append_assoc, htokens]
    rfl
  · rw [length_append, ← placeText_placeText, hplace]
    rfl

theorem scaledIndex_one : scaledIndex 1 = fun i : Nat => (i : Int) := by
  funext i
  simp [scaledIndex]

theorem imageRows (spans : List MMSpan) (hspans : ∀ span ∈ spans, span.Valid args) :
    (mmData args spans).imageGridThw =
        (blocksOf false (visionBlocks [] (layout args spans)).1).map (·.gridThw args) ∧
      ∀ b ∈ (visionBlocks [] (layout args spans)).1, b.isVideo = false →
        b.scale = args.imageScale := by
  have hrows := (blockRows_layout args hspans []).1
  constructor
  · have hfst := congrArg (List.map Prod.fst) hrows
    simpa [blockRows, Function.comp_def] using hfst.symm
  · intro b hb hvideo
    have hmem : (b.gridThw args, b.scale) ∈
        blockRows args false (visionBlocks [] (layout args spans)).1 :=
      mem_map_of_mem (List.mem_filter.mpr ⟨hb, by simp [hvideo]⟩)
    rw [hrows] at hmem
    obtain ⟨grid, -, heq⟩ := List.mem_map.mp hmem
    exact (Prod.mk.inj heq).2.symm

end Xllm
