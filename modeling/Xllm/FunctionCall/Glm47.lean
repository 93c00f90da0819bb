import Xllm.FunctionCall.CoreTypes

/-!
# The GLM-4.7 detector

A tool call is written `<tool_call>name`, followed by pairs of `<arg_key>` and `<arg_value>`
elements, and `</tool_call>`. `process_xml_to_json_streaming` rewrites the pairs into the
text of a JSON object byte by byte. `parse_streaming_increment` keeps the text of a call in
its buffer, finds the name and the pairs in it anew at each call, and gives the part of the
pairs that has not been rewritten to `process_xml_to_json_streaming`.

An exception is `none`. The members that have been assigned before it keep their values.
`streamed_args_for_tool_`, `prev_tool_call_arr_` and `tool_indices_` are written only; what
is written there matters because writing it may throw.
-/

namespace Xllm.FunctionCall.Glm47

open Text

variable {D : Type}

/-- What the detector uses of the libraries. -/
structure Library (D : Type) extends JsonLibrary D where
  /-- `parse` throws `out_of_range` instead of `parse_error`. -/
  overflows : List Char → Bool
  /-- `std::stod`, which reads the front of the text. -/
  stodFront : List Char → Option D

def botToken : List Char := "<tool_call>".toList
def eotToken : List Char := "</tool_call>".toList
def keyOpen : List Char := "<arg_key>".toList
def keyClose : List Char := "</arg_key>".toList
def valOpen : List Char := "<arg_value>".toList
def valClose : List Char := "</arg_value>".toList

def whitespace (c : Char) : Bool := c ∈ [' ', '\t', '\n', '\r']

def trimWhitespace (t : List Char) : List Char := trim whitespace t

/-- `(c & 0xC0) == 0x80`. -/
def continuation (c : Char) : Bool := c.toNat / 64 = 2

/-- The length of the character that starts with a byte. -/
def needed (c : Char) : Option Nat :=
  if c.toNat < 0x80 then some 1
  else if c.toNat / 32 = 6 then some 2
  else if c.toNat / 16 = 14 then some 3
  else if c.toNat / 8 = 30 then some 4
  else .none

/-- How many bytes from the end the last character starts, at most four. -/
def lastStart (str : List Char) : Option Nat :=
  (List.range' 1 (min str.length 4)).find? fun i => !continuation (str.getD (str.length - i) ' ')

def splitIncompleteUtf8 (str : List Char) : List Char × List Char :=
  match lastStart str with
  | .none => (str, [])
  | some i =>
      let startPos := str.length - i
      match needed (str.getD startPos ' ') with
      | .none => (str, [])
      | some n => if i = n then (str, []) else (str.take startPos, str.drop startPos)

def getArgumentType (funcName argKey : List Char) (tools : List (JsonTool D)) : List Char :=
  let tool := (tools.filter fun tool => tool.name = funcName).getLast?
  let properties := tool.bind fun tool => tool.parameters.find? "properties".toList
  let prop := properties.bind fun properties => properties.find? argKey
  match prop.bind fun prop => prop.find? "type".toList with
  | some (.string type) => type
  | _ => []

/-- `get_value_type`, for the value that has been read so far. -/
def getValueType (currentValue funcName key : List Char) (tools : List (JsonTool D)) :
    List Char :=
  let argType := getArgumentType funcName key tools
  if argType ≠ [] then argType
  else match trimWhitespace currentValue with
    | [] => "string".toList
    | first :: _ =>
        if first.isDigit ∨ first = '-' ∨ first = '.' then "number".toList
        else if first = '\x7b' ∨ first = '[' then "object".toList
        else "string".toList

def leadingDigits (t : List Char) : Option Nat :=
  match t.takeWhile Char.isDigit with
  | [] => .none
  | ds => some (ds.foldl (fun n c => n * 10 + (c.toNat - 48)) 0)

/-- `std::stoll`, for a text without leading white space. -/
def stoll (t : List Char) : Option Int :=
  let value : Option Int := match t with
    | '-' :: ds => (leadingDigits ds).map fun n => -(n : Int)
    | '+' :: ds => (leadingDigits ds).map fun n => (n : Int)
    | ds => (leadingDigits ds).map fun n => (n : Int)
  value.filter fun n => -9223372036854775808 ≤ n ∧ n ≤ 9223372036854775807

def convertToNumber (lib : Library D) (value : List Char) : Json D :=
  let trimmed := trimWhitespace value
  if '.' ∈ trimmed ∨ 'e' ∈ trimmed ∨ 'E' ∈ trimmed then
    ((lib.stodFront trimmed).map Json.float).getD (.string value)
  else ((stoll trimmed).map Json.int).getD (.string value)

/-- The coercion of a parsed value. -/
def coerce (lib : Library D) (argType : List Char) : Json D → Json D
  | .string text =>
      if argType = "number".toList then convertToNumber lib text else .string text
  | parsed => parsed

/-- The second strategy of `parse_arguments`: the text is the inside of a string. -/
def parseUnescaped (lib : Library D) (jsonValue : List Char) : Option (Json D) :=
  match (lib.parse ("\x7b\"tmp\": \"".toList ++ jsonValue ++ "\"\x7d".toList)).bind
      fun temp => temp.find? "tmp".toList with
  | some (.string text) => lib.parse text
  | _ => .none

def parseArguments (lib : Library D) (jsonValue argType : List Char) : Option (Json D) :=
  match lib.parse jsonValue with
  | some parsed => some (coerce lib argType parsed)
  | .none =>
      if lib.overflows jsonValue then .none
      else match parseUnescaped lib jsonValue with
        | some parsed => some (coerce lib argType parsed)
        | .none => some (.string jsonValue)

def argumentValue (lib : Library D) (argType value : List Char) : Option (Json D) :=
  (parseArguments lib value argType).bind fun parsed =>
    match parsed with
    | .string text => some (.string text)
    | parsed =>
        if argType = "string".toList then (lib.dump parsed).map Json.string else some parsed

def argumentEntry (lib : Library D) (funcName : List Char) (tools : List (JsonTool D))
    (arguments : Json D) (pair : List Char × List Char) : Option (Json D) :=
  let key := trimWhitespace pair.1
  (argumentValue lib (getArgumentType funcName key tools) (trimWhitespace pair.2)).map
    fun value => Json.insert key value arguments

def parseArgumentPairs (lib : Library D) (pairs : List (List Char × List Char))
    (funcName : List Char) (tools : List (JsonTool D)) : Option (Json D) :=
  pairs.foldlM (argumentEntry lib funcName tools) (.object [])

def formatValueComplete (lib : Library D) (value valueType : List Char) : Option (List Char) :=
  if valueType = "string".toList then lib.dump (.string value)
  else if valueType = "number".toList then
    (lib.dump (convertToNumber lib (trimWhitespace value))).or (lib.dump (.string value))
  else some value

/-- The content of a string, when the JSON library writes it or when it does not. -/
def escaped (lib : Library D) (content : List Char) : List Char :=
  match lib.dump (.string content) with
  | some text => (text.drop 1).take (text.length - 2)
  | .none => content.flatMap fun c =>
      if c = '"' then "\\\"".toList
      else if c = '\\' then "\\\\".toList
      else if c.toNat < 0x20 then
        ['\\', 'u', '0', '0', Nat.digitChar (c.toNat / 16), Nat.digitChar (c.toNat % 16)]
      else [c]

inductive StreamState where
  | init
  | between
  | inKey
  | waitingValue
  | inValue

/-- The members of `reset_streaming_state`. -/
structure Xml where
  streamState : StreamState := .init
  currentKey : List Char := []
  currentValue : List Char := []
  xmlTagBuffer : List Char := []
  isFirstParam : Bool := true
  valueStarted : Bool := false
  cachedValueType : List Char := []
  utf8Buffer : List Char := []

namespace Xml

variable (s : Xml)

def valueType : List Char :=
  if s.cachedValueType = [] then "string".toList else s.cachedValueType

/-- The end of a value, with what the buffer holds before the tag. -/
def closeValue (lib : Library D) : Xml × Option (List Char) :=
  let finalValue := s.xmlTagBuffer.take (s.xmlTagBuffer.length - valClose.length)
  let closed : Xml :=
    { s with
      xmlTagBuffer := []
      streamState := .between
      currentValue := []
      valueStarted := false
      cachedValueType := [] }
  if s.valueStarted then
    let fullFinal := s.utf8Buffer ++ finalValue
    let rest :=
      if fullFinal = [] then []
      else if s.valueType = "string".toList then escaped lib fullFinal
      else fullFinal
    ({ closed with utf8Buffer := [] },
      some (rest ++ if s.valueType = "string".toList then ['"'] else []))
  else
    match formatValueComplete lib (s.currentValue ++ finalValue) s.valueType with
    | some text => (closed, some text)
    | .none => ({ s with currentValue := s.currentValue ++ finalValue }, .none)

/-- The buffer of a value cannot become the closing tag. -/
def valueContent (lib : Library D) : Xml × List Char :=
  if s.valueType = "string".toList then
    let quote := if s.valueStarted then [] else ['"']
    let split := splitIncompleteUtf8 (s.utf8Buffer ++ s.xmlTagBuffer)
    ({ s with
        valueStarted := true
        currentValue := s.currentValue ++ split.1
        utf8Buffer := split.2
        xmlTagBuffer := [] },
      quote ++ if split.1 = [] then [] else escaped lib split.1)
  else
    ({ s with
        valueStarted := true
        currentValue := s.currentValue ++ s.xmlTagBuffer
        xmlTagBuffer := [] },
      s.xmlTagBuffer)

/-- What is done with the buffer, to which a byte has been added. -/
def scanBuffer (lib : Library D) (funcName : List Char) (tools : List (JsonTool D)) :
    Xml × Option (List Char) :=
  match s.streamState with
  | .init | .between =>
      if keyOpen <:+ s.xmlTagBuffer then
        ({ s with
            streamState := .inKey
            currentKey := []
            xmlTagBuffer := []
            isFirstParam := false },
          some (if s.isFirstParam then "\x7b".toList else ", ".toList))
      else (s, some [])
  | .inKey =>
      if keyClose <:+ s.xmlTagBuffer then
        let key := trimWhitespace (s.xmlTagBuffer.take (s.xmlTagBuffer.length - keyClose.length))
        ({ s with currentKey := key, xmlTagBuffer := [], streamState := .waitingValue },
          (lib.dump (.string key)).map fun text => text ++ ": ".toList)
      else (s, some [])
  | .waitingValue =>
      if valOpen <:+ s.xmlTagBuffer then
        ({ s with
            streamState := .inValue
            currentValue := []
            xmlTagBuffer := []
            valueStarted := false
            cachedValueType := getValueType [] funcName s.currentKey tools },
          some [])
      else (s, some [])
  | .inValue =>
      if valClose <:+ s.xmlTagBuffer then s.closeValue lib
      else if s.xmlTagBuffer <+: valClose then (s, some [])
      else
        let content := s.valueContent lib
        (content.1, some content.2)

/-- One byte of `process_xml_to_json_streaming`. -/
def feed (lib : Library D) (funcName : List Char) (tools : List (JsonTool D)) (ch : Char) :
    Xml × Option (List Char) :=
  { s with xmlTagBuffer := s.xmlTagBuffer ++ [ch] }.scanBuffer lib funcName tools

end Xml

def processXmlToJsonStreaming (lib : Library D) (funcName : List Char)
    (tools : List (JsonTool D)) : Xml → List Char → Xml × Option (List Char)
  | s, [] => (s, some [])
  | s, ch :: increment =>
      match s.feed lib funcName tools ch with
      | (s', .none) => (s', .none)
      | (s', some output) =>
          let rest := processXmlToJsonStreaming lib funcName tools s' increment
          (rest.1, rest.2.map (output ++ ·))

structure Detector where
  xml : Xml := {}
  lastArguments : List Char := []
  streamedRawLength : Nat := 0
  buffer : List Char := []
  currentToolId : Int := -1
  currentToolNameSent : Bool := false

def parseToolCallContent (content : List Char) : List Char × List Char :=
  match splitFirst keyOpen content with
  | .none => (trimWhitespace content, [])
  | some (name, rest) => (trimWhitespace name, keyOpen ++ rest)

/-- The loop of `extract_argument_pairs`, which goes on behind each pair or at the next key. -/
def extractFor : Nat → List Char → List (List Char × List Char)
  | 0, _ => []
  | fuel + 1, t =>
      match splitFirst keyOpen t with
      | .none => []
      | some (_, behindOpen) =>
          match splitFirst keyClose behindOpen with
          | .none => []
          | some (key, behindKey) =>
              match splitFirst valOpen (keyClose ++ behindKey) with
              | .none => []
              | some (gap, behindValOpen) =>
                  let take :=
                    match splitFirst valClose behindValOpen with
                    | .none => []
                    | some (value, rest) => (key, value) :: extractFor fuel rest
                  match splitFirst keyOpen behindKey with
                  | .none => take
                  | some (before, rest) =>
                      if keyClose.length + before.length < gap.length then
                        extractFor fuel (keyOpen ++ rest)
                      else take

def extractArgumentPairs (argsRaw : List Char) : List (List Char × List Char) :=
  extractFor (argsRaw.length + 1) argsRaw

/-- What is stored in `prev_tool_call_arr_` for a complete call. -/
def storeArguments (lib : Library D) (funcName argsRaw : List Char)
    (tools : List (JsonTool D)) : Option (List Char) :=
  let pairs := extractArgumentPairs argsRaw
  if pairs = [] then some []
  else (parseArgumentPairs lib pairs funcName tools).bind lib.dump

namespace Detector

variable (d : Detector)

def firstCall : Detector :=
  if d.currentToolId = -1 then
    { d with currentToolId := 0, streamedRawLength := 0, currentToolNameSent := false, xml := {} }
  else d

/-- The buffer holds no start of a tool call. -/
def plainText : StreamingParseResult × Detector :=
  if (List.range' 1 (min d.buffer.length botToken.length)).any
      fun i => botToken.take i = d.buffer.drop (d.buffer.length - i) then
    ({}, d)
  else ({ normalText := delete eotToken d.buffer }, { d with buffer := [] })

/-- The name of the call is sent when it is known to be complete. -/
def sendName (funcName argsRaw : List Char) (isToolEnd : Bool) :
    StreamingParseResult × Detector :=
  if funcName = [] ∨ argsRaw = [] ∧ isToolEnd = false then ({}, d)
  else
    ({ calls := [⟨d.currentToolId, some funcName, []⟩] },
      { d with currentToolNameSent := true, streamedRawLength := 0, xml := {} })

def item (fragment : List Char) : List ToolCallItem :=
  if fragment = [] then [] else [⟨d.currentToolId, .none, fragment⟩]

/-- The part of the arguments that is new. -/
def sendArguments (lib : Library D) (tools : List (JsonTool D)) (funcName argsRaw : List Char) :
    Option (List ToolCallItem) × Detector :=
  if d.streamedRawLength < argsRaw.length then
    let processed := processXmlToJsonStreaming lib funcName tools d.xml
      (argsRaw.drop d.streamedRawLength)
    match processed.2 with
    | .none => (.none, { d with xml := processed.1 })
    | some fragment =>
        (some (d.item fragment),
          { d with
            xml := processed.1
            lastArguments := d.lastArguments ++ fragment
            streamedRawLength := argsRaw.length })
  else (some [], d)

/-- What ends the arguments. -/
def closing : List Char :=
  if d.xml.isFirstParam then "\x7b\x7d".toList
  else if d.lastArguments.getLast? = some '\x7d' then []
  else "\x7d".toList

def finish (lib : Library D) (tools : List (JsonTool D)) (funcName argsRaw rest : List Char)
    (calls : List ToolCallItem) : StreamingParseResult × Detector :=
  match storeArguments lib funcName argsRaw tools with
  | .none =>
      ({ normalText := d.buffer }, { d with lastArguments := d.lastArguments ++ d.closing })
  | some _ =>
      ({ calls := calls ++ d.item d.closing },
        { d with
          buffer := rest
          currentToolId := d.currentToolId + 1
          lastArguments := []
          currentToolNameSent := false
          streamedRawLength := 0
          xml := {} })

def continueCall (lib : Library D) (tools : List (JsonTool D)) (funcName argsRaw : List Char)
    (rest : Option (List Char)) : StreamingParseResult × Detector :=
  match d.sendArguments lib tools funcName argsRaw with
  | (.none, d') => ({ normalText := d.buffer }, d')
  | (some calls, d') =>
      match rest with
      | .none => ({ calls := calls }, d')
      | some rest => d'.finish lib tools funcName argsRaw rest calls

/-- A call whose start has been found, followed by `behind`. -/
def toolCall (lib : Library D) (tools : List (JsonTool D)) (behind : List Char) :
    StreamingParseResult × Detector :=
  let cut := splitFirst eotToken behind
  let content := (cut.map Prod.fst).getD behind
  let parsed := parseToolCallContent content
  if d.currentToolNameSent then
    d.continueCall lib tools parsed.1 parsed.2 (cut.map Prod.snd)
  else d.sendName parsed.1 parsed.2 cut.isSome

end Detector

def parseStreamingIncrement (lib : Library D) (tools : List (JsonTool D)) (d : Detector)
    (newText : List Char) : StreamingParseResult × Detector :=
  let d : Detector := { d with buffer := d.buffer ++ newText }
  match splitFirst botToken d.buffer with
  | .none => d.plainText
  | some (_, behind) => d.firstCall.toolCall lib tools behind

def stream (lib : Library D) (tools : List (JsonTool D)) (d : Detector) :
    List (List Char) → StreamingParseResult × Detector
  | [] => (0, d)
  | chunk :: chunks =>
      let first := parseStreamingIncrement lib tools d chunk
      let rest := stream lib tools first.2 chunks
      (first.1 + rest.1, rest.2)

end Xllm.FunctionCall.Glm47
