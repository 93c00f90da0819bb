import Mathlib.Data.List.Basic
import Mathlib.Data.List.Range
import Mathlib.Data.String.Basic
import Xllm.Lib.PairMerge

/-!
# The tiktoken tokenizer

`TiktokenTokenizer` loads a vocabulary of byte strings with ranks, cuts a piece of text
into parts by `byte_pair_encode` and puts the bytes of ids together again in `decode`. The
lines of the vocabulary file are given as parsed. A read beyond a vector or a string and a
failed check are `none`, and so is a loop whose rounds do not suffice. The `int32_t` indices
are natural numbers: none of them exceeds the length of the piece.
-/

namespace Xllm

def kMaxRank : Int := 2147483647

/-- U+FFFD in UTF-8. -/
def replacementCharacter : List UInt8 := [0xEF, 0xBF, 0xBD]

def tryEmplace {κ ν : Type*} [BEq κ] (entries : List (κ × ν)) (key : κ) (value : ν) :
    List (κ × ν) :=
  if (entries.lookup key).isSome then entries else (key, value) :: entries

structure TiktokenTokenizer where
  encoder : List (List UInt8 × Int) := []
  decoder : List (Int × List UInt8) := []
  specialTokenDecoder : List (Int × List UInt8) := []

namespace TiktokenTokenizer

/-- A token and its rank, as the vocabulary file lists them. -/
abbrev VocabLine := List UInt8 × Int

def addLine (tokenizer : TiktokenTokenizer) (line : VocabLine) : TiktokenTokenizer :=
  { tokenizer with
    encoder := tryEmplace tokenizer.encoder line.1 line.2
    decoder := tryEmplace tokenizer.decoder line.2 line.1 }

def loadVocab (tokenizer : TiktokenTokenizer) (lines : List VocabLine) : TiktokenTokenizer :=
  lines.foldl addLine tokenizer

abbrev Part := Nat × Int

def substr (piece : List UInt8) (s e : Nat) : Option (List UInt8) :=
  if s ≤ e ∧ e ≤ piece.length then some ((piece.drop s).take (e - s)) else none

def getRank (tokenizer : TiktokenTokenizer) (piece : List UInt8) (parts : List Part)
    (start skip : Nat) : Option (Option Int) :=
  if start + skip + 2 < parts.length then do
    let s ← parts[start]?
    let e ← parts[start + skip + 2]?
    let key ← substr piece s.1 e.1
    some (tokenizer.encoder.lookup key)
  else
    some none

def setRank (parts : List Part) (i : Nat) (rank : Int) : Option (List Part) := do
  let part ← parts[i]?
  some (parts.set i (part.1, rank))

/-- One round of the first loop. The sentinel may not be a rank of the vocabulary. -/
def initRank (tokenizer : TiktokenTokenizer) (piece : List UInt8) (parts : List Part) (i : Nat) :
    Option (List Part) := do
  match ← getRank tokenizer piece parts i 0 with
  | none => some parts
  | some rank => if rank ≠ kMaxRank then setRank parts i rank else none

def initialParts (tokenizer : TiktokenTokenizer) (piece : List UInt8) : Option (List Part) :=
  let parts := (List.range (piece.length + 1)).map fun i => (i, kMaxRank)
  (List.range (parts.length - 2)).foldlM (initRank tokenizer piece) parts

def findMinRank (parts : List Part) : Int × Nat :=
  (parts.take (parts.length - 1)).zipIdx.foldl
    (fun best p => if p.1.2 < best.1 then (p.1.2, p.2) else best) (kMaxRank, 0)

/-- The ranks of pair `i` and of the one in front of it, with the part behind `i` gone. -/
def renewRanks (tokenizer : TiktokenTokenizer) (piece : List UInt8) (parts : List Part)
    (i : Nat) : Option (List Part) := do
  let rank ← getRank tokenizer piece parts i 1
  let parts ← setRank parts i (rank.getD kMaxRank)
  if 0 < i then do
    let rank ← getRank tokenizer piece parts (i - 1) 1
    setRank parts (i - 1) (rank.getD kMaxRank)
  else
    some parts

def mergePart (tokenizer : TiktokenTokenizer) (piece : List UInt8) (parts : List Part) (i : Nat) :
    Option (List Part) := do
  let parts ← renewRanks tokenizer piece parts i
  if i + 1 < parts.length then some (parts.eraseIdx (i + 1)) else none

/-- The merge loop, in at most so many rounds. -/
def mergeLoop (tokenizer : TiktokenTokenizer) (piece : List UInt8) :
    Nat → List Part → Option (List Part)
  | 0, _ => none
  | rounds + 1, parts =>
      if 1 < parts.length then
        let (minRank, minI) := findMinRank parts
        if minRank = kMaxRank then
          some parts
        else do
          mergeLoop tokenizer piece rounds (← mergePart tokenizer piece parts minI)
      else
        some parts

/-- What stands in `parts` behind the merge loop. -/
def mergedParts (tokenizer : TiktokenTokenizer) (piece : List UInt8) (rounds : Nat) :
    Option (List Part) := do
  mergeLoop tokenizer piece rounds (← initialParts tokenizer piece)

def segments (piece : List UInt8) (parts : List Part) : Option (List (List UInt8)) :=
  (List.range (parts.length - 1)).mapM fun i => do
    let s ← parts[i]?
    let e ← parts[i + 1]?
    substr piece s.1 e.1

/-- The loop is given as many rounds as the piece has bytes, and one more. -/
def bytePairEncode (tokenizer : TiktokenTokenizer) (piece : List UInt8) (ids : List Int) :
    Option (List Int) :=
  if piece.isEmpty then
    some ids
  else do
    let parts ← mergedParts tokenizer piece (piece.length + 1)
    let keys ← segments piece parts
    some (ids ++ keys.filterMap fun key => tokenizer.encoder.lookup key)

def idBytes (tokenizer : TiktokenTokenizer) (skipSpecialTokens : Bool) (id : Int) : List UInt8 :=
  match tokenizer.specialTokenDecoder.lookup id with
  | some token => if skipSpecialTokens then [] else token
  | none => (tokenizer.decoder.lookup id).getD []

/-- Unfinished UTF-8 is replaced. `isValidDecodeUTF8` tells whether the bytes start with a
character, and how many of them it takes. -/
def repairUtf8 (isValidDecodeUTF8 : List UInt8 → Bool × Nat) :
    Nat → List UInt8 → Option (List UInt8)
  | _, [] => some []
  | 0, _ :: _ => none
  | rounds + 1, byte :: rest => do
      let (isValid, consumed) := isValidDecodeUTF8 (byte :: rest)
      if isValid then
        let text ← repairUtf8 isValidDecodeUTF8 rounds ((byte :: rest).drop consumed)
        some ((byte :: rest).take consumed ++ text)
      else
        some replacementCharacter

def decode (tokenizer : TiktokenTokenizer) (isValidDecodeUTF8 : List UInt8 → Bool × Nat)
    (ids : List Int) (skipSpecialTokens : Bool) : Option (List UInt8) :=
  let bytes := ids.flatMap (tokenizer.idBytes skipSpecialTokens)
  repairUtf8 isValidDecodeUTF8 bytes.length bytes

end TiktokenTokenizer

end Xllm
