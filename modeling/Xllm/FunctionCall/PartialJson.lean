import Mathlib.Data.List.Basic
import Mathlib.Tactic.Common

/-!
# Parsing partial JSON

A text that may end anywhere is completed to a JSON text. Every function gets a text and returns
how much of it is kept and what is put behind it; what cannot be completed is an exception, and
the functions for arrays and objects catch those of their items.

A symbol stands for a byte. The length of a text is converted to a signed 32-bit number.
-/

namespace Xllm.PartialJson

def STR : Nat := 1
def NUM : Nat := 2
def ARR : Nat := 4
def OBJ : Nat := 8
def NULL_TYPE : Nat := 16
def BOOL : Nat := 32
def NAN_TYPE : Nat := 64
def INFINITY_TYPE : Nat := 128
def NEG_INFINITY : Nat := 256

/-- A bit set of the types that may be completed. -/
abbrev TypeOptions := Nat

/-- The type may be completed. -/
def Allows (allowed : TypeOptions) (type : Nat) : Prop := type ||| allowed = allowed

instance (allowed : TypeOptions) (type : Nat) : Decidable (Allows allowed type) :=
  inferInstanceAs (Decidable (_ = _))

inductive Failure
  | malformed (message : String)
  | outOfRange
  /-- More calls and rounds than the limit. -/
  | endless

structure JsonCompletion where
  index : Int
  string : List Char

abbrev Completing := Except Failure JsonCompletion

/-- The conversion of a `size_t` to `int32_t`. -/
def toInt32 (n : Nat) : Int := (n : Int).bmod 4294967296

def castLength (text : List Char) : Int := toInt32 text.length

/-- `text.substr(0, n)`, where a negative number is converted to a large unsigned one. -/
def substr (text : List Char) (n : Int) : List Char :=
  if n < 0 then text else text.take n.toNat

def isSpace (c : Char) : Bool := c ∈ [' ', '\t', '\n', '\x0b', '\x0c', '\r']

def isDigit (c : Char) : Bool := '0' ≤ c ∧ c ≤ '9'

def skipLoop (length : Int) : List Char → Nat → Nat
  | [], i => i
  | c :: rest, i => if (i : Int) < length ∧ isSpace c then skipLoop length rest (i + 1) else i

def skipBlank (text : List Char) (index : Nat) : Nat :=
  skipLoop (castLength text) (text.drop index) index

/-- The last place where a text has the two symbols. -/
def rfind (text : List Char) (a b : Char) : Option Nat :=
  (List.range text.length).reverse.find? fun i => (text.drop i).take 2 = [a, b]

/-- The loop of `completeString`: where it stops, and whether the next symbol is escaped. -/
def scanString (length : Int) : List Char → Nat → Bool → Nat × Bool
  | [], index, charEscaped => (index, charEscaped)
  | c :: rest, index, charEscaped =>
      if (index : Int) < length ∧ (c ≠ '"' ∨ charEscaped) then
        scanString length rest (index + 1) (if c = '\\' then !charEscaped else false)
      else (index, charEscaped)

def cutEscape (text : List Char) (i digits : Nat) : JsonCompletion :=
  if toInt32 i + 2 + digits = castLength text then ⟨toInt32 i + 2 + digits, ['"']⟩
  else ⟨toInt32 i + 2, ['"']⟩

def completeString (text : List Char) (allowed : TypeOptions) : Completing :=
  if text.head? ≠ some '"' then .error (.malformed "string must start with quote")
  else
    let (index, charEscaped) := scanString (castLength text) (text.drop 1) 1 false
    if (index : Int) < castLength text then .ok ⟨index + 1, []⟩
    else if ¬ Allows allowed STR then .error (.malformed "cannot complete malformed json")
    else match rfind text '\\' 'u' with
      | some i => .ok (cutEscape text i 4)
      | none => match rfind text '\\' 'U' with
        | some i => .ok (cutEscape text i 8)
        | none => match rfind text '\\' 'x' with
          | some i => .ok (cutEscape text i 2)
          | none => if charEscaped then .ok ⟨index - 1, ['"']⟩ else .ok ⟨index, ['"']⟩

def isMark (c : Char) : Bool := c ∈ ['.', '+', '-', 'e', 'E']

def scanNumber (length : Int) : List Char → Nat → Nat
  | [], i => i
  | c :: rest, i =>
      if (i : Int) < length ∧ (isDigit c || isMark c) then scanNumber length rest (i + 1) else i

/-- The second loop: marks at the end are dropped. The flag tells whether there were any. -/
def trimNumber (text : List Char) : Nat → Bool → Except Failure (Nat × Bool)
  | 0, specialNum => .ok (0, specialNum)
  | i + 1, specialNum => match text[i]? with
      | none => .error .outOfRange
      | some c =>
          if isMark c then
            if i = 0 then .error (.malformed "string index out of range")
            else trimNumber text i true
          else .ok (i + 1, specialNum)

def completeNumber (text : List Char) (allowed : TypeOptions) (topLevel : Bool) : Completing := do
  let (i, specialNum) ← trimNumber text (scanNumber (castLength text) (text.drop 1) 1) false
  if specialNum ∨ ((i : Int) = castLength text ∧ ¬ topLevel) then
    if Allows allowed NUM then .ok ⟨i, []⟩
    else .error (.malformed "cannot parse number with given options")
  else .ok ⟨i, []⟩

/-- One word of `completeAny`: the text begins with it, or is the beginning of it. -/
def completeWord (text : List Char) (allowed : TypeOptions) (word : String) (type : Nat)
    (message : String) (otherwise : Completing) : Completing :=
  let word := word.toList
  if substr text (min word.length (castLength text)) = word then .ok ⟨word.length, []⟩
  else if text.length < word.length ∧ word.take text.length = text then
    if Allows allowed type then .ok ⟨0, word⟩ else .error (.malformed message)
  else otherwise

def completeWords (text : List Char) (allowed : TypeOptions) : Completing :=
  completeWord text allowed "null" NULL_TYPE "cannot parse null with given options" <|
  completeWord text allowed "true" BOOL "cannot parse bool with given options" <|
  completeWord text allowed "false" BOOL "cannot parse bool with given options" <|
  completeWord text allowed "Infinity" INFINITY_TYPE
    "cannot parse Infinity with given options" <|
  completeWord text allowed "-Infinity" NEG_INFINITY
    "cannot parse -Infinity with given options" <|
  completeWord text allowed "NaN" NAN_TYPE "cannot parse NaN with given options" <|
  .error (.malformed ("MalformedJSON(unexpected char " ++ String.ofList (text.take 1) ++ ")"))

/-- The end of `completeArray`, and what it does with the exceptions of its items. -/
def closeArray (allowed : TypeOptions) (i : Int) : Completing :=
  if Allows allowed ARR then .ok ⟨i, [']']⟩
  else .error (.malformed "cannot parse array with given options")

def closeObject (allowed : TypeOptions) (i : Int) : Completing :=
  if Allows allowed OBJ then .ok ⟨i, ['\x7d']⟩
  else .error (.malformed "cannot parse object with given options")

def catchObject (text : List Char) (allowed : TypeOptions) (i j : Nat) (message : String) :
    Completing :=
  if (j : Int) < castLength text then
    match text[j]? with
    | none => .error .outOfRange
    | some c =>
        if c ≠ '"' ∧ c ≠ '\x7d' then .error (.malformed message) else closeObject allowed i
  else closeObject allowed i

/-- `expected` and the symbol that came instead. -/
def expectedGot (expected : String) (c : Char) : String :=
  expected ++ String.ofList [c] ++ ")"

/-- The round of a loop goes on at a place of the text, unless it is at the end. -/
def atSymbol (text : List Char) (j : Nat) (atEnd : Completing) (next : Char → Completing) :
    Completing :=
  if castLength text ≤ j then atEnd
  else match text[j]? with
    | none => .error .outOfRange
    | some c => next c

/-- One round of the loop of `completeArray`: the last item ends at `i`, and `j` is the next
place. An item is completed by `item`, and the next round is `again`. -/
def arrayRound (item : List Char → Completing) (again : Nat → Nat → Completing)
    (text : List Char) (allowed : TypeOptions) (i j : Nat) : Completing :=
  if castLength text ≤ j then closeArray allowed i
  else
    let j := skipBlank text j
    atSymbol text j (closeArray allowed i) fun c =>
      if c = ']' then .ok ⟨j + 1, []⟩
      else match item (text.drop j) with
        | .error (.malformed _) => closeArray allowed i
        | .error e => .error e
        | .ok result =>
            if result.string ≠ [] then
              -- the exception of the other branch is caught by the handler
              if Allows allowed ARR then .ok ⟨j + result.index, result.string ++ [']']⟩
              else closeArray allowed i
            else
              let i := j + result.index.toNat
              let j := skipBlank text i
              atSymbol text j (closeArray allowed i) fun c =>
                if c = ',' then again i (j + 1)
                else if c = ']' then .ok ⟨j + 1, []⟩
                else closeArray allowed i

def objectValue (item : List Char → Completing) (again : Nat → Nat → Completing)
    (text : List Char) (allowed : TypeOptions) (i j : Nat) : Completing :=
  if castLength text ≤ j then closeObject allowed i
  else match item (text.drop j) with
    | .error (.malformed message) => catchObject text allowed i j message
    | .error e => .error e
    | .ok result =>
        if result.string ≠ [] then
          if Allows allowed OBJ then .ok ⟨j + result.index, result.string ++ ['\x7d']⟩
          else catchObject text allowed i j "cannot parse object with given options"
        else
          let i := j + result.index.toNat
          let j := skipBlank text i
          atSymbol text j (closeObject allowed i) fun c =>
            if c = ',' then again i (j + 1)
            else if c = '\x7d' then .ok ⟨j + 1, []⟩
            else
              catchObject text allowed i j
                (expectedGot "MalformedJSON(expected \",\" or \"\x7d\" got " c)

def objectRound (item : List Char → Completing) (again : Nat → Nat → Completing)
    (text : List Char) (allowed : TypeOptions) (i j : Nat) : Completing :=
  if castLength text ≤ j then closeObject allowed i
  else
    let j := skipBlank text j
    atSymbol text j (closeObject allowed i) fun c =>
      if c = '\x7d' then .ok ⟨j + 1, []⟩
      else match completeString (text.drop j) allowed with
        | .error (.malformed message) => catchObject text allowed i j message
        | .error e => .error e
        | .ok key =>
            if key.string ≠ [] then
              if Allows allowed OBJ then .ok ⟨i, ['\x7d']⟩
              else catchObject text allowed i j "cannot parse object with given options"
            else
              let j := skipBlank text (j + key.index.toNat)
              atSymbol text j (closeObject allowed i) fun c =>
                if c ≠ ':' then
                  catchObject text allowed i j (expectedGot "MalformedJSON( expected \":\" got " c)
                else objectValue item again text allowed i (skipBlank text (j + 1))

/-- The rounds of a loop over a text, which are limited by the first number. -/
def rounds (round : (Nat → Nat → Completing) → Nat → Nat → Completing) :
    Nat → Nat → Nat → Completing
  | 0, _, _ => .error .endless
  | limit + 1, i, j => round (rounds round limit) i j

def completeArray (item : List Char → Completing) (limit : Nat) (text : List Char)
    (allowed : TypeOptions) : Completing :=
  rounds (fun again i j => arrayRound item again text allowed i j) limit 1 1

def completeObject (item : List Char → Completing) (limit : Nat) (text : List Char)
    (allowed : TypeOptions) : Completing :=
  rounds (fun again i j => objectRound item again text allowed i j) limit 1 1

def completeAnyWith (item : List Char → Completing) (limit : Nat) (text : List Char)
    (allowed : TypeOptions) (topLevel : Bool) : Completing :=
  match text with
  | [] => .error (.malformed "empty string")
  | firstChar :: rest =>
      if firstChar = '"' then completeString text allowed
      else if firstChar = '[' then completeArray item limit text allowed
      else if firstChar = '\x7b' then completeObject item limit text allowed
      else if firstChar = '-' ∧ rest = [] then
        .error (.malformed "cannot parse singular '-'")
      else if (firstChar = '-' ∧ rest.head? ≠ some 'I') ∨ isDigit firstChar then
        completeNumber text allowed topLevel
      else completeWords text allowed

/-- The nested calls are limited by the first argument. -/
def completeAny : Nat → List Char → TypeOptions → Bool → Completing
  | 0, _, _, _ => .error .endless
  | limit + 1, text, allowed, topLevel =>
      completeAnyWith (fun value => completeAny limit value allowed false) limit text allowed
        topLevel

/-- Enough nested calls and rounds for a text: every one of them goes on in the text. -/
def limitOf (text : List Char) : Nat := text.length + 1

def parseJson (jsonString : List Char) (allowed : TypeOptions) : Except Failure (List Char) := do
  let value := jsonString.drop (skipBlank jsonString 0)
  let completion ← completeAny (limitOf value) value allowed true
  if completion.index = 0 ∧ completion.string = [] then
    .error (.malformed "no valid JSON content found")
  else .ok (substr value completion.index ++ completion.string)

end Xllm.PartialJson
