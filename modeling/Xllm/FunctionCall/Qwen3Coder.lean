import Mathlib.Algebra.Ring.Int.Defs
import Xllm.FunctionCall.CoreTypes
import Xllm.Lib.Scanner

/-!
# The Qwen3-Coder detector

A tool call is written with tags: `<tool_call>`, `<function=name>`, and parameters
`<parameter=name>value</parameter>`. `detect_and_parse` cuts the whole text by nested
searches. `parse_streaming_increment` is a scanner: it looks at the front of its buffer,
takes a tag, a parameter with its value or plain text, and waits when what it sees may
still become a tag.
-/

namespace Xllm.FunctionCall.Qwen3Coder

open Text

variable {D : Type}

def toolCallStart : List Char := "<tool_call>".toList
def toolCallEnd : List Char := "</tool_call>".toList
/-- `tool_call_prefix_`. -/
def functionPrefix : List Char := "<function=".toList
def functionEnd : List Char := "</function>".toList
def parameterPrefix : List Char := "<parameter=".toList
def parameterEnd : List Char := "</parameter>".toList

def whitespace (c : Char) : Bool := c ∈ [' ', '\t', '\n', '\r', '\x0c', '\x0b']

def trimAsciiWhitespace (t : List Char) : List Char := trim whitespace t

def toLowerCopy (t : List Char) : List Char :=
  t.map fun c => if 'A' ≤ c ∧ c ≤ 'Z' then Char.ofNat (c.toNat + 32) else c

/-- Decimal digits, at least one. -/
def digits : List Char → Option Nat
  | [] => .none
  | ds =>
      if ds.all Char.isDigit then some (ds.foldl (fun n c => n * 10 + (c.toNat - 48)) 0)
      else .none

/-- `try_parse_int64`, for a text without surrounding white space. -/
def tryParseInt64 (t : List Char) : Option Int :=
  let value : Option Int := match t with
    | '-' :: ds => (digits ds).map fun n => -(n : Int)
    | '+' :: ds => (digits ds).map fun n => (n : Int)
    | ds => (digits ds).map fun n => (n : Int)
  value.filter fun n => -2 ^ 63 ≤ n ∧ n < 2 ^ 63

def getArgumentsConfig (funcName : List Char) (tools : List (JsonTool D)) : Json D :=
  match tools.find? fun tool => tool.type = "function".toList ∧ tool.name = funcName with
  | .none => .object []
  | some tool =>
      match tool.parameters.find? "properties".toList with
      | some (.object properties) => .object properties
      | _ => if tool.parameters.isObject then tool.parameters else .object []

def paramType (config : Json D) (paramName : List Char) : List Char :=
  match (config.find? paramName).bind fun entry => entry.find? "type".toList with
  | some (.string type) => toLowerCopy type
  | _ => "string".toList

/-- A numeric value is an integer when it is written as one. -/
def convertNumber (lib : JsonLibrary D) (value : D) (trimmed : List Char) : Json D :=
  if '.' ∉ trimmed ∧ 'e' ∉ trimmed ∧ 'E' ∉ trimmed then
    match lib.toInt64 value with
    | some n => .int n
    | .none => .float value
  else .float value

def convertFallback (lib : JsonLibrary D) (paramValue trimmed lowerValue : List Char) : Json D :=
  if lowerValue = "true".toList then .bool true
  else if lowerValue = "false".toList then .bool false
  else
    match tryParseInt64 trimmed, lib.stod trimmed, lib.parse paramValue with
    | some n, _, _ => .int n
    | .none, some x, _ => .float x
    | .none, .none, some json => json
    | .none, .none, .none =>
        if 2 ≤ paramValue.length ∧ paramValue.head? = some '\'' ∧
          paramValue.getLast? = some '\'' then
          .string (paramValue.drop 1).dropLast
        else .string paramValue

def convertParamValue (lib : JsonLibrary D) (paramValue paramName : List Char)
    (config : Json D) : Json D :=
  let trimmed := trimAsciiWhitespace paramValue
  let lowerValue := toLowerCopy trimmed
  let type := paramType config paramName
  let startsWith (words : List String) : Bool := words.any fun word => word.toList.isPrefixOf type
  if lowerValue = "null".toList then .null
  else if config.isEmpty = false ∧ (config.find? paramName).isNone = true then .string paramValue
  else if type ∈ ["string", "str", "text", "varchar", "char", "enum"].map String.toList then
    .string paramValue
  else if startsWith ["int", "uint", "long", "short", "unsigned"] then
    match tryParseInt64 trimmed with
    | some n => .int n
    | .none => .string paramValue
  else if startsWith ["num", "float"] then
    match lib.stod trimmed with
    | some value => convertNumber lib value trimmed
    | .none => .string paramValue
  else if type ∈ ["boolean", "bool", "binary"].map String.toList then
    .bool (lowerValue = "true".toList)
  else if type ∈ ["object", "array", "arr"].map String.toList ∨ startsWith ["dict", "list"] then
    (lib.parse paramValue).getD (.string paramValue)
  else convertFallback lib paramValue trimmed lowerValue

def find (p t : List Char) : Option Nat := (splitFirst p t).map fun cut => cut.1.length

def nearer (best : Option (Nat × Nat)) (candidate : Option Nat) : Option (Nat × Nat) :=
  match candidate, best with
  | some j, some (i, tokenLength) => if j < i then some (j, 0) else some (i, tokenLength)
  | some j, .none => some (j, 0)
  | .none, _ => best

/-- Where a value ends, and the length of the tag that is taken with it: `</parameter>`,
the next parameter or the end of the function, whichever comes first. -/
def valueEnd (rest : List Char) : Option (Nat × Nat) :=
  nearer (nearer ((find parameterEnd rest).map fun i => (i, parameterEnd.length))
    (find parameterPrefix rest)) (find functionEnd rest)

/-- One line break at each end of a value does not belong to it. -/
def stripNewlines (raw : List Char) : List Char :=
  let raw := if raw.head? = some '\n' then raw.drop 1 else raw
  if raw.getLast? = some '\n' then raw.dropLast else raw

/-- The members of `Qwen3CoderDetector` without the buffer. `parsed_pos_` is zero between
calls that return. -/
structure Tags where
  currentToolId : Int := -1
  currentToolNameSent : Bool := false
  currentToolParamCount : Nat := 0
  jsonStarted : Bool := false
  isInsideToolCall : Bool := false
  currentFuncName : Option (List Char) := .none

namespace Tags

variable (s : Tags)

/-- Plain text is returned outside tool calls. -/
def plain (t : List Char) : StreamingParseResult :=
  if s.isInsideToolCall then 0 else { normalText := t }

def openBrace : List ToolCallItem :=
  if s.jsonStarted then [] else [⟨s.currentToolId, .none, "\x7b".toList⟩]

def fragment (lib : JsonLibrary D) (tools : List (JsonTool D)) (paramName raw : List Char) :
    Option (List Char) := do
  let config := getArgumentsConfig (s.currentFuncName.getD []) tools
  let key ← lib.dump (.string paramName)
  let value ← lib.dump (convertParamValue lib (stripNewlines raw) paramName config)
  some ((if 0 < s.currentToolParamCount then ", ".toList else []) ++ key ++ ": ".toList ++ value)

end Tags

open Scanner

def nextFunction (s : Tags) (slice : List Char) : Move Tags StreamingParseResult :=
  match splitFirst ['>'] slice with
  | .none => .wait
  | some (tag, _) =>
      let funcName := tag.drop functionPrefix.length
      .take (tag.length + 1) { calls := [⟨s.currentToolId + 1, some funcName, []⟩] }
        { s with
          currentToolId := s.currentToolId + 1
          currentToolNameSent := true
          currentToolParamCount := 0
          jsonStarted := false
          currentFuncName := some funcName }

def nextParameter (lib : JsonLibrary D) (tools : List (JsonTool D)) (s : Tags)
    (slice : List Char) : Move Tags StreamingParseResult :=
  match splitFirst ['>'] slice with
  | .none => .wait
  | some (tag, rest) =>
      match valueEnd rest with
      | .none => .wait
      | some (endPos, tokenLength) =>
          match s.fragment lib tools (tag.drop parameterPrefix.length) (rest.take endPos) with
          | .none => .fail
          | some fragment =>
              .take (tag.length + 1 + endPos + tokenLength)
                { calls := s.openBrace ++ [⟨s.currentToolId, .none, fragment⟩] }
                { s with
                  jsonStarted := true
                  currentToolParamCount := s.currentToolParamCount + 1 }

def possibleTags : List (List Char) :=
  [toolCallStart, toolCallEnd, functionPrefix, functionEnd, parameterPrefix, parameterEnd]

def nextText (s : Tags) (slice : List Char) : Move Tags StreamingParseResult :=
  match splitFirst ['<'] slice with
  | .none => .take slice.length (s.plain slice) s
  | some ([], _) =>
      if ∃ tag ∈ possibleTags, slice <+: tag then .wait else .take 1 (s.plain ['<']) s
  | some (text, _) => .take text.length (s.plain text) s

/-- One round of the loop of `parse_streaming_increment`. -/
def next (lib : JsonLibrary D) (tools : List (JsonTool D)) (s : Tags) (slice : List Char) :
    Move Tags StreamingParseResult :=
  if slice = [] then .wait
  else if toolCallStart <+: slice then
    .take toolCallStart.length 0 { s with isInsideToolCall := true }
  else if functionPrefix <+: slice then nextFunction s slice
  else if parameterPrefix <+: slice then nextParameter lib tools s slice
  else if functionEnd <+: slice then
    .take functionEnd.length
      { calls := s.openBrace ++ [⟨s.currentToolId, .none, "\x7d".toList⟩] }
      { s with jsonStarted := true, currentFuncName := .none }
  else if toolCallEnd <+: slice then
    .take toolCallEnd.length 0 { s with isInsideToolCall := false }
  else nextText s slice

structure Detector where
  tags : Tags := {}
  buffer : List Char := []

/-- `parse_streaming_increment`. An exception of the JSON library leaves it without a
result. -/
def parseStreamingIncrement (lib : JsonLibrary D) (tools : List (JsonTool D)) (d : Detector)
    (newText : List Char) : Option (StreamingParseResult × Detector) :=
  (scan (next lib tools) d.tags (d.buffer ++ newText)).map fun r => (r.1, ⟨r.2.1, r.2.2⟩)

/-- The chunks are given to `parse_streaming_increment` one after the other. -/
def stream (lib : JsonLibrary D) (tools : List (JsonTool D)) (d : Detector) :
    List (List Char) → Option (StreamingParseResult × Detector)
  | [] => some (0, d)
  | chunk :: chunks =>
      (parseStreamingIncrement lib tools d chunk).bind fun first =>
        (stream lib tools first.2 chunks).map fun rest => (first.1 + rest.1, rest.2)

end Xllm.FunctionCall.Qwen3Coder
