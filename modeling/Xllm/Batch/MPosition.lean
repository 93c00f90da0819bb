import Mathlib.Data.NNRat.Defs
import Xllm.Request.Sequence
import Xllm.Util.TensorHelper

/-!
# Rope positions of a multimodal sequence

`MPositionHelper` computes a position with three components for every token of a sequence. The
tokens of an image or a video get the coordinates of a grid, the others are numbered on from the
largest position so far. While the prompt is not in the cache the matrix of the whole sequence is
computed and the distance of its last position from the number of tokens is kept; afterwards one
column is computed from that distance.

A matrix is the list of its columns. Seconds are nonnegative rationals, and a tensor that is not
defined is an empty list: reading a row of either fails.
-/

namespace Xllm

open Util

/-- The members of `ModelArgs` that the positions and the layout of a prompt depend on. -/
structure MRopeArgs where
  modelType : String
  imageTokenId : Token
  videoTokenId : Token
  visionStartTokenId : Token
  visionEndTokenId : Token
  imageStartTokenId : Token
  imageEndTokenId : Token
  videoStartTokenId : Token
  videoEndTokenId : Token
  mmSpatialMergeSize : Nat
  mmTokensPerSecond : Nat

/-- The branches of `get_positions` on the type of the model. -/
inductive MRopeKind
  | glm4v
  | qwen3Vl
  | other
deriving DecidableEq

/-- `absl::StartsWith` on the type of the model. -/
def MRopeArgs.typeStartsWith (args : MRopeArgs) (start : String) : Bool :=
  start.toList.isPrefixOf args.modelType.toList

def MRopeArgs.kind (args : MRopeArgs) : MRopeKind :=
  if args.typeStartsWith "glm4v" then .glm4v
  else if args.typeStartsWith "qwen3_vl" then .qwen3Vl
  else .other

structure GridThw where
  t : Nat
  h : Nat
  w : Nat
deriving DecidableEq

/-- The tensors of `MMData` that the positions depend on. -/
structure MRopeData where
  imageGridThw : List GridThw := []
  videoGridThw : List GridThw := []
  secondPerGridTs : List ℚ≥0 := []

/-- A column of a position matrix. -/
structure PosColumn where
  t : Int
  h : Int
  w : Int
deriving DecidableEq

def PosColumn.shift (c : PosColumn) (d : Int) : PosColumn := ⟨c.t + d, c.h + d, c.w + d⟩

def uniformColumn (p : Int) : PosColumn := ⟨p, p, p⟩

def textPos (textLen : Nat) (stIdx : Int) : List PosColumn :=
  (List.range textLen).map fun i : Nat => uniformColumn (stIdx + i)

def gridPos (t h w : Nat) (tIndex : Nat → Int) : List PosColumn :=
  (List.range t).flatMap fun i : Nat => (List.range h).flatMap fun j : Nat =>
    (List.range w).map fun k : Nat => ⟨tIndex i, j, k⟩

def posValues (columns : List PosColumn) : List Int := columns.flatMap fun c => [c.t, c.h, c.w]

/-- `max().item<int32_t>()`. -/
def maxPosition (columns : List PosColumn) : Except TensorFault Int :=
  ((posValues columns).max?).elim (.error .empty) .ok

/-- `st_idx`: behind the largest position of the last group. -/
def nextStIdx (llmPosIds : List (List PosColumn)) : Except TensorFault Int :=
  match llmPosIds.getLast? with
  | none => .ok 0
  | some group => (maxPosition group).map (· + 1)

/-- The matrix of all groups, and `mrope_position_delta`. -/
def finishPositions (llmPosIds : List (List PosColumn)) (numTokens : Nat) :
    Except TensorFault (List PosColumn × Int) :=
  if llmPosIds.isEmpty then .error .cat
  else do
    let largest ← maxPosition llmPosIds.flatten
    return (llmPosIds.flatten, largest + 1 - numTokens)

def visionTokens (visionStart : Token) : List Token → Except TensorFault (List Token)
  | [] => .ok []
  | token :: rest =>
      if token = visionStart then do
        let next ← rowAt rest 0
        let found ← visionTokens visionStart rest
        return next :: found
      else visionTokens visionStart rest

/-- `std::find` from `st` on, as a distance from the first token. -/
def findToken (tokens : List Token) (st : Nat) (id : Token) : Option Nat :=
  ((tokens.drop st).findIdx? (· == id)).map (st + ·)

structure VisionWalk where
  st : Nat := 0
  remainImages : Nat
  remainVideos : Nat
  imageIndex : Nat := 0
  videoIndex : Nat := 0
  llmPosIds : List (List PosColumn) := []

/-- `ed_image` or `ed_video`. -/
def nextVision (tokens : List Token) (st remain : Nat) (id : Token) : Nat :=
  if 0 < remain then (findToken tokens st id).getD (tokens.length + 1) else tokens.length + 1

/-- The text in front of an image or video that starts at `ed`, and its grid. `tIndex` is the
first row of the grid. -/
def placeVision (mergeSize : Nat) (s : VisionWalk) (grid : GridThw) (tIndex : Nat → Int)
    (ed : Nat) : Except TensorFault VisionWalk := do
  let llmGridH := grid.h / mergeSize
  let llmGridW := grid.w / mergeSize
  let textLen : Int := ed - s.st
  let stIdx ← nextStIdx s.llmPosIds
  let texts := if 0 < textLen then [textPos textLen.toNat stIdx] else []
  let visual := (gridPos grid.t llmGridH llmGridW tIndex).map (·.shift (textLen + stIdx))
  return { s with
    st := ed + grid.t * llmGridH * llmGridW
    llmPosIds := s.llmPosIds ++ texts ++ [visual] }

/-- The body of the loop. `imageTime` is the first row of an image, `videoTime` that of the video
with an index. -/
def visionStep (args : MRopeArgs) (tokens : List Token) (imageGrid videoGrid : List GridThw)
    (imageTime : Nat → Int) (videoTime : Nat → Except TensorFault (Nat → Int)) (s : VisionWalk) :
    Except TensorFault VisionWalk := do
  let edImage := nextVision tokens s.st s.remainImages args.imageTokenId
  let edVideo := nextVision tokens s.st s.remainVideos args.videoTokenId
  if edImage < edVideo then
    let grid ← rowAt imageGrid s.imageIndex
    placeVision args.mmSpatialMergeSize
      { s with imageIndex := s.imageIndex + 1, remainImages := s.remainImages - 1 } grid
      imageTime edImage
  else
    let grid ← rowAt videoGrid s.videoIndex
    let tIndex ← videoTime s.videoIndex
    placeVision args.mmSpatialMergeSize
      { s with videoIndex := s.videoIndex + 1, remainVideos := s.remainVideos - 1 } grid
      tIndex edVideo

/-- The loop over `image_nums + video_nums`. -/
def visionLoop (step : VisionWalk → Except TensorFault VisionWalk) :
    Nat → VisionWalk → Except TensorFault VisionWalk
  | 0, s => .ok s
  | n + 1, s => step s >>= visionLoop step n

def visionPositions (args : MRopeArgs) (tokens : List Token) (imageGrid videoGrid : List GridThw)
    (imageTime : Nat → Int) (videoTime : Nat → Except TensorFault (Nat → Int)) :
    Except TensorFault (List PosColumn × Int) := do
  let found ← visionTokens args.visionStartTokenId tokens
  let imageNums := found.count args.imageTokenId
  let videoNums := found.count args.videoTokenId
  let s ← visionLoop (visionStep args tokens imageGrid videoGrid imageTime videoTime)
    (imageNums + videoNums) { remainImages := imageNums, remainVideos := videoNums }
  if s.st < tokens.length then
    let stIdx ← nextStIdx s.llmPosIds
    finishPositions (s.llmPosIds ++ [textPos (tokens.length - s.st) stIdx]) tokens.length
  else
    finishPositions s.llmPosIds tokens.length

/-- `.to(torch::kInt32)` of a frame index that is scaled. -/
def scaledIndex (scale : ℚ≥0) (i : Nat) : Int :=
  (((i : ℚ≥0) * scale).num / ((i : ℚ≥0) * scale).den : Nat)

/-- `get_positions_p`. The frames of an image are a second apart. -/
def getPositionsP (args : MRopeArgs) (tokens : List Token) (data : MRopeData) :
    Except TensorFault (List PosColumn × Int) :=
  visionPositions args tokens data.imageGridThw data.videoGridThw
    (scaledIndex (1 * args.mmTokensPerSecond))
    (fun idx => (rowAt data.secondPerGridTs idx).map fun seconds =>
      scaledIndex (seconds * args.mmTokensPerSecond))

/-- `repeat_interleave` by the first column, which is then set to one. -/
def frameGrids (videoGrid : List GridThw) : List GridThw :=
  videoGrid.flatMap fun grid => List.replicate grid.t { grid with t := 1 }

def getPositionsQwen3 (args : MRopeArgs) (tokens : List Token) (data : MRopeData) :
    Except TensorFault (List PosColumn × Int) :=
  visionPositions args tokens data.imageGridThw (frameGrids data.videoGridThw) (fun i => i)
    (fun _ => .ok fun i => i)

inductive TokenType
  | text
  | image
  | video
deriving DecidableEq

def inVideoBehind (args : MRopeArgs) (inVideo : Bool) (token : Token) : Bool :=
  if token = args.videoStartTokenId then true
  else if token = args.videoEndTokenId then false
  else inVideo

def inputTokenType (args : MRopeArgs) (inVideo : Bool) : List Token → List TokenType
  | [] => []
  | token :: rest =>
      let inVideo := inVideoBehind args inVideo token
      (if token = args.imageTokenId then (if inVideo then .video else .image) else .text) ::
        inputTokenType args inVideo rest

def groupFrom (key : TokenType) (start i : Nat) : List TokenType → List (TokenType × Nat × Nat)
  | [] => [(key, start, i)]
  | type :: rest =>
      if type ≠ key then (key, start, i) :: groupFrom type i (i + 1) rest
      else groupFrom key start (i + 1) rest

def groupByTokenType : List TokenType → List (TokenType × Nat × Nat)
  | [] => []
  | type :: rest => groupFrom type 0 1 rest

structure GroupWalk where
  imageIndex : Nat := 0
  videoIndex : Nat := 0
  videoGroupIndex : Nat := 0
  videoFrameNum : Nat := 1
  llmPosIds : List (List PosColumn) := []

def groupStep (args : MRopeArgs) (data : MRopeData) (s : GroupWalk)
    (group : TokenType × Nat × Nat) : Except TensorFault GroupWalk := do
  let stIdx ← nextStIdx s.llmPosIds
  match group with
  | (.image, _, _) => do
      let grid ← rowAt data.imageGridThw s.imageIndex
      let pos := gridPos grid.t (grid.h / args.mmSpatialMergeSize)
        (grid.w / args.mmSpatialMergeSize) (fun i => i)
      return { s with
        llmPosIds := s.llmPosIds ++ [pos.map (·.shift stIdx)]
        videoFrameNum := 1
        imageIndex := s.imageIndex + 1 }
  | (.video, _, _) => do
      let grid ← rowAt data.videoGridThw s.videoIndex
      let frames := (List.range s.videoFrameNum).map fun tIdx : Nat =>
        (gridPos 1 (grid.h / args.mmSpatialMergeSize) (grid.w / args.mmSpatialMergeSize)
          (fun _ => tIdx)).map (·.shift stIdx)
      let lastGroup := decide (grid.t ≤ s.videoGroupIndex + 1)
      return { s with
        llmPosIds := s.llmPosIds ++ frames
        videoGroupIndex := if lastGroup then 0 else s.videoGroupIndex + 1
        videoIndex := if lastGroup then s.videoIndex + 1 else s.videoIndex
        videoFrameNum := s.videoFrameNum + 1 }
  | (.text, startIdx, endIdx) =>
      return { s with
        llmPosIds := s.llmPosIds ++ [textPos (endIdx - startIdx) stIdx]
        videoFrameNum := 1 }

def getPositionsGlm (args : MRopeArgs) (tokens : List Token) (data : MRopeData) :
    Except TensorFault (List PosColumn × Int) := do
  let s ← (groupByTokenType (inputTokenType args false tokens)).foldlM (groupStep args data) {}
  finishPositions s.llmPosIds tokens.length

def matrixPositions (args : MRopeArgs) (tokens : List Token) (data : MRopeData) :
    Except TensorFault (List PosColumn × Int) :=
  match args.kind with
  | .glm4v => getPositionsGlm args tokens data
  | .qwen3Vl => getPositionsQwen3 args tokens data
  | .other => getPositionsP args tokens data

def getPositionsD (mropePositionDelta : Int) (numTokens : Nat) : List PosColumn :=
  [uniformColumn (mropePositionDelta + numTokens - 1)]

end Xllm
