import Mathlib.Algebra.Group.Defs
import Xllm.Lib.Text

/-!
# Tool calls and JSON values

The types of `core_types.h`, and the values of the JSON library. An object has its keys in
order, each once. `JsonLibrary` has the functions of the library that the detectors call:
a text is parsed or refused, and a value is written or, when one of its strings is no valid
UTF-8, an exception is thrown. Doubles are known by the functions on them only. A symbol of
a text stands for a byte.
-/

namespace Xllm.FunctionCall

/-- `nlohmann::json`, with `D` for doubles. -/
inductive Json (D : Type) where
  | null
  | bool (value : Bool)
  | int (value : Int)
  | float (value : D)
  | string (value : List Char)
  | array (values : List (Json D))
  | object (entries : List (List Char × Json D))

namespace Json

variable {D : Type}

def isObject : Json D → Bool
  | .object _ => true
  | _ => false

def find? : Json D → List Char → Option (Json D)
  | .object entries, key => entries.lookup key
  | _, _ => .none

def isEmpty : Json D → Bool
  | .null => true
  | .array values => values.isEmpty
  | .object entries => entries.isEmpty
  | _ => false

def insertEntry (key : List Char) (value : Json D) :
    List (List Char × Json D) → List (List Char × Json D)
  | [] => [(key, value)]
  | (k, v) :: rest =>
      if key < k then (key, value) :: (k, v) :: rest
      else if key = k then (key, value) :: rest
      else (k, v) :: insertEntry key value rest

/-- Assignment to `operator[]` of an object. -/
def insert (key : List Char) (value : Json D) : Json D → Json D
  | .object entries => .object (insertEntry key value entries)
  | other => other

end Json

/-- What the detectors use of the JSON library and of floating-point numbers. -/
structure JsonLibrary (D : Type) where
  parse : List Char → Option (Json D)
  dump : Json D → Option (List Char)
  /-- `std::stod` on the whole text. -/
  stod : List Char → Option D
  /-- The integer that a finite double is, as far as `int64_t` has it. -/
  toInt64 : D → Option Int

structure JsonTool (D : Type) where
  type : List Char
  name : List Char
  parameters : Json D

structure ToolCallItem where
  toolIndex : Int
  name : Option (List Char)
  parameters : List Char

@[ext]
structure StreamingParseResult where
  normalText : List Char := []
  calls : List ToolCallItem := []

instance : Add StreamingParseResult :=
  ⟨fun a b => ⟨a.normalText ++ b.normalText, a.calls ++ b.calls⟩⟩

instance : Zero StreamingParseResult := ⟨{}⟩

instance : AddMonoid StreamingParseResult where
  nsmul := nsmulRec
  add_assoc a b c := StreamingParseResult.ext (List.append_assoc _ _ _) (List.append_assoc _ _ _)
  zero_add _ := rfl
  add_zero a := StreamingParseResult.ext (List.append_nil _) (List.append_nil _)

namespace StreamingParseResult

variable {a b : StreamingParseResult}

@[simp] theorem add_normalText : (a + b).normalText = a.normalText ++ b.normalText := rfl

@[simp] theorem add_calls : (a + b).calls = a.calls ++ b.calls := rfl

@[simp] theorem zero_normalText : (0 : StreamingParseResult).normalText = [] := rfl

@[simp] theorem zero_calls : (0 : StreamingParseResult).calls = [] := rfl

end StreamingParseResult

end Xllm.FunctionCall
