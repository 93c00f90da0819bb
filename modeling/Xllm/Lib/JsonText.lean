import Mathlib.Data.List.Basic
import Mathlib.Tactic.Common

/-!
# JSON texts

A symbol of a text stands for a byte. The texts are those of RFC 8259 in UTF-8, with
surrogates in pairs. They are read from left to right by a machine with a stack: a frame
holds what has been read of an array or of an object, and the mode says what may come next.
A number is known by its numeral, and an object by its fields as they stand in the text.

What the machine does depends on the top of its stack only, so a text that is a value of
its own is read as this value inside arrays and objects (`run_value`). A string is written
by `escape`, byte by byte, and the machine reads back what was written (`readString_escape`).
-/

namespace JsonText

open List Option

/-- The ranges of the bytes that follow a first byte. -/
def tails (lead : Char) : Option (List (Nat × Nat)) :=
  if lead.toNat < 0x80 then some []
  else if lead.toNat < 0xC2 then none
  else if lead.toNat < 0xE0 then some [(0x80, 0xBF)]
  else if lead.toNat = 0xE0 then some [(0xA0, 0xBF), (0x80, 0xBF)]
  else if lead.toNat = 0xED then some [(0x80, 0x9F), (0x80, 0xBF)]
  else if lead.toNat < 0xF0 then some [(0x80, 0xBF), (0x80, 0xBF)]
  else if lead.toNat = 0xF0 then some [(0x90, 0xBF), (0x80, 0xBF), (0x80, 0xBF)]
  else if lead.toNat < 0xF4 then some [(0x80, 0xBF), (0x80, 0xBF), (0x80, 0xBF)]
  else if lead.toNat = 0xF4 then some [(0x80, 0x8F), (0x80, 0xBF), (0x80, 0xBF)]
  else none

/-- A byte inside a character. -/
def continuation (c : Char) : Bool := c.toNat / 64 = 2

/-- One byte, when bytes in the ranges `due` are due. -/
def utf8Step : List (Nat × Nat) → Char → Option (List (Nat × Nat))
  | [], c => tails c
  | (lo, hi) :: due, c =>
      if continuation c ∧ lo ≤ c.toNat ∧ c.toNat ≤ hi then some due else none

/-- The bytes that are due behind a text. -/
def utf8Run (due : List (Nat × Nat)) (t : List Char) : Option (List (Nat × Nat)) :=
  t.foldlM utf8Step due

def ValidUtf8 (t : List Char) : Prop := utf8Run [] t = some []

instance (t : List Char) : Decidable (ValidUtf8 t) := inferInstanceAs (Decidable (_ = _))

/-- The bytes of a code point. -/
def encode (code : Nat) : List Char :=
  if code < 0x80 then [Char.ofNat code]
  else if code < 0x800 then [Char.ofNat (0xC0 + code / 64), Char.ofNat (0x80 + code % 64)]
  else if code < 0x10000 then
    [Char.ofNat (0xE0 + code / 4096), Char.ofNat (0x80 + code / 64 % 64),
      Char.ofNat (0x80 + code % 64)]
  else
    [Char.ofNat (0xF0 + code / 262144), Char.ofNat (0x80 + code / 4096 % 64),
      Char.ofNat (0x80 + code / 64 % 64), Char.ofNat (0x80 + code % 64)]

/-- Where the machine stands in a string. -/
inductive Lex where
  | text (due : List (Nat × Nat))
  | escape
  /-- `digits` hexadecimal digits are due, behind a high surrogate or not. -/
  | hex (digits : Nat) (code : Nat) (high : Option Nat)
  | lowEscape (high : Nat)
  | lowMark (high : Nat)
  deriving DecidableEq

def hexDigit (c : Char) : Option Nat :=
  if '0' ≤ c ∧ c ≤ '9' then some (c.toNat - '0'.toNat)
  else if 'a' ≤ c ∧ c ≤ 'f' then some (c.toNat - 'a'.toNat + 10)
  else if 'A' ≤ c ∧ c ≤ 'F' then some (c.toNat - 'A'.toNat + 10)
  else none

def codeUnit (code : Nat) : Option Nat → Option (List Char × Lex)
  | none =>
      if 0xD800 ≤ code ∧ code < 0xDC00 then some ([], .lowEscape code)
      else if 0xDC00 ≤ code ∧ code < 0xE000 then none
      else some (encode code, .text [])
  | some high =>
      if 0xDC00 ≤ code ∧ code < 0xE000 then
        some (encode (0x10000 + (high - 0xD800) * 1024 + (code - 0xDC00)), .text [])
      else none

/-- One byte of a string, and the bytes of its text. The closing quote is no byte of it. -/
def Lex.step : Lex → Char → Option (List Char × Lex)
  | .text [], c =>
      if c = '\\' then some ([], .escape)
      else if c.toNat < 0x20 ∨ c = '"' then none
      else (tails c).map fun due => ([c], .text due)
  | .text due, c => (utf8Step due c).map fun due => ([c], .text due)
  | .escape, c =>
      if c = '"' ∨ c = '\\' ∨ c = '/' then some ([c], .text [])
      else if c = 'b' then some (['\x08'], .text [])
      else if c = 'f' then some (['\x0c'], .text [])
      else if c = 'n' then some (['\n'], .text [])
      else if c = 'r' then some (['\r'], .text [])
      else if c = 't' then some (['\t'], .text [])
      else if c = 'u' then some ([], .hex 4 0 none)
      else none
  | .hex digits code high, c =>
      (hexDigit c).bind fun d =>
        if digits ≤ 1 then codeUnit (code * 16 + d) high
        else some ([], .hex (digits - 1) (code * 16 + d) high)
  | .lowEscape high, c => if c = '\\' then some ([], .lowMark high) else none
  | .lowMark high, c => if c = 'u' then some ([], .hex 4 0 (some high)) else none

/-- The text that has been read of a string, and where the machine stands in it. -/
def readString (read : List Char × Lex) (t : List Char) : Option (List Char × Lex) :=
  t.foldlM (fun r c => (r.2.step c).map fun next => (r.1 ++ next.1, next.2)) read

def escapeChar (c : Char) : List Char :=
  if c = '"' then ['\\', '"']
  else if c = '\\' then ['\\', '\\']
  else if c = '\x08' then ['\\', 'b']
  else if c = '\x0c' then ['\\', 'f']
  else if c = '\n' then ['\\', 'n']
  else if c = '\r' then ['\\', 'r']
  else if c = '\t' then ['\\', 't']
  else if c.toNat < 0x20 then
    ['\\', 'u', '0', '0', Nat.digitChar (c.toNat / 16), Nat.digitChar (c.toNat % 16)]
  else [c]

/-- How a text is written in a string. -/
def escape (t : List Char) : List Char := t.flatMap escapeChar

def quote (t : List Char) : List Char := '"' :: escape t ++ ['"']

/-- The part of a numeral that has been read last. -/
inductive Part where
  | minus | zero | int | point | frac | exp | sign | expDigits

def isDigit (c : Char) : Bool := '0' ≤ c ∧ c ≤ '9'

/-- A numeral goes on. -/
def Part.next : Part → Char → Option Part
  | .minus, c => if c = '0' then some .zero else if isDigit c then some .int else none
  | .zero, c =>
      if c = '.' then some .point else if c = 'e' ∨ c = 'E' then some .exp else none
  | .int, c =>
      if isDigit c then some .int
      else if c = '.' then some .point
      else if c = 'e' ∨ c = 'E' then some .exp
      else none
  | .point, c => if isDigit c then some .frac else none
  | .frac, c =>
      if isDigit c then some .frac else if c = 'e' ∨ c = 'E' then some .exp else none
  | .exp, c =>
      if c = '+' ∨ c = '-' then some .sign else if isDigit c then some .expDigits else none
  | .sign, c => if isDigit c then some .expDigits else none
  | .expDigits, c => if isDigit c then some .expDigits else none

/-- A numeral may end here. -/
def Part.complete : Part → Bool
  | .zero | .int | .frac | .expDigits => true
  | _ => false

inductive Value where
  | null
  | bool (value : Bool)
  | number (numeral : List Char)
  | string (text : List Char)
  | array (items : List Value)
  | object (fields : List (List Char × Value))

inductive Word where
  | true | false | null

def Word.text : Word → List Char
  | .true => "true".toList
  | .false => "false".toList
  | .null => "null".toList

def Word.value : Word → Value
  | .true => .bool Bool.true
  | .false => .bool Bool.false
  | .null => .null

/-- An array or object that has been opened. -/
inductive Frame where
  | items (read : List Value)
  /-- The value of `key` comes next. -/
  | field (read : List (List Char × Value)) (key : List Char)

/-- What may come next. A `first` item or key may be missing. -/
inductive Mode where
  | value (first : Bool)
  | key (read : List (List Char × Value)) (first : Bool)
  | inKey (read : List (List Char × Value)) (text : List Char) (lex : Lex)
  | colon (read : List (List Char × Value)) (key : List Char)
  | inString (text : List Char) (lex : Lex)
  | literal (word : Word) (read : Nat)
  | number (numeral : List Char) (part : Part)
  | done (value : Value)

structure State where
  stack : List Frame
  mode : Mode

def blank (c : Char) : Bool := c ∈ [' ', '\t', '\n', '\r']

def beginValue (stack : List Frame) (c : Char) : Option State :=
  if c = '\x7b' then some ⟨stack, .key [] true⟩
  else if c = '[' then some ⟨.items [] :: stack, .value true⟩
  else if c = '"' then some ⟨stack, .inString [] (.text [])⟩
  else if c = 't' then some ⟨stack, .literal .true 1⟩
  else if c = 'f' then some ⟨stack, .literal .false 1⟩
  else if c = 'n' then some ⟨stack, .literal .null 1⟩
  else if c = '-' then some ⟨stack, .number [c] .minus⟩
  else if c = '0' then some ⟨stack, .number [c] .zero⟩
  else if isDigit c then some ⟨stack, .number [c] .int⟩
  else none

def afterValue (stack : List Frame) (v : Value) (c : Char) : Option State :=
  if blank c then some ⟨stack, .done v⟩
  else match stack with
    | [] => none
    | .items read :: stack =>
        if c = ',' then some ⟨.items (read ++ [v]) :: stack, .value false⟩
        else if c = ']' then some ⟨stack, .done (.array (read ++ [v]))⟩
        else none
    | .field read key :: stack =>
        if c = ',' then some ⟨stack, .key (read ++ [(key, v)]) false⟩
        else if c = '\x7d' then some ⟨stack, .done (.object (read ++ [(key, v)]))⟩
        else none

/-- `]` directly behind `[`. -/
def closeEmpty : List Frame → Option State
  | .items _ :: stack => some ⟨stack, .done (.array [])⟩
  | _ => none

def step (s : State) (c : Char) : Option State :=
  match s.mode with
  | .value first =>
      if blank c then some s
      else if first ∧ c = ']' then closeEmpty s.stack
      else beginValue s.stack c
  | .key read first =>
      if blank c then some s
      else if c = '"' then some ⟨s.stack, .inKey read [] (.text [])⟩
      else if first ∧ c = '\x7d' then some ⟨s.stack, .done (.object read)⟩
      else none
  | .inKey read text lex =>
      if c = '"' ∧ lex = .text [] then some ⟨s.stack, .colon read text⟩
      else (lex.step c).map fun next => ⟨s.stack, .inKey read (text ++ next.1) next.2⟩
  | .colon read key =>
      if blank c then some s
      else if c = ':' then some ⟨.field read key :: s.stack, .value false⟩
      else none
  | .inString text lex =>
      if c = '"' ∧ lex = .text [] then some ⟨s.stack, .done (.string text)⟩
      else (lex.step c).map fun next => ⟨s.stack, .inString (text ++ next.1) next.2⟩
  | .literal word read =>
      if word.text[read]? ≠ some c then none
      else if word.text.length = read + 1 then some ⟨s.stack, .done word.value⟩
      else some ⟨s.stack, .literal word (read + 1)⟩
  | .number numeral part =>
      match part.next c with
      | some part => some ⟨s.stack, .number (numeral ++ [c]) part⟩
      | none => if part.complete then afterValue s.stack (.number numeral) c else none
  | .done v => afterValue s.stack v c

def run (s : State) (t : List Char) : Option State := t.foldlM step s

/-- A value may end here. -/
def Mode.value? : Mode → Option Value
  | .number numeral part => if part.complete then some (.number numeral) else none
  | .done v => some v
  | _ => none

def parse (t : List Char) : Option Value :=
  match run ⟨[], .value false⟩ t with
  | some ⟨[], mode⟩ => mode.value?
  | _ => none

@[simp] theorem utf8Run_append (due : List (Nat × Nat)) (t u : List Char) :
    utf8Run due (t ++ u) = (utf8Run due t).bind fun due => utf8Run due u :=
  foldlM_append

variable {c : Char}

theorem le_of_continuation (h : continuation c) : 0x80 ≤ c.toNat := by
  simp only [continuation, decide_eq_true_eq] at h
  omega

variable {due due' : List (Nat × Nat)}

theorem utf8Step_cons {range : Nat × Nat} (h : utf8Step (range :: due) c = some due') :
    continuation c ∧ due' = due := by
  simp only [utf8Step, ite_none_right_eq_some, Option.some.injEq] at h
  exact ⟨h.1.1, h.2.symm⟩

@[simp] theorem readString_nil (r : List Char × Lex) : readString r [] = some r := rfl

theorem readString_cons (r : List Char × Lex) (c : Char) (t : List Char) :
    readString r (c :: t) =
      (r.2.step c).bind fun next => readString (r.1 ++ next.1, next.2) t := by
  simp only [readString, foldlM_cons]
  cases r.2.step c <;> rfl

theorem readString_append (r : List Char × Lex) (t u : List Char) :
    readString r (t ++ u) = (readString r t).bind fun r => readString r u :=
  foldlM_append

theorem readString_from (x : List Char) (r : List Char × Lex) (t : List Char) :
    readString (x ++ r.1, r.2) t = (readString r t).map fun r => (x ++ r.1, r.2) := by
  induction t generalizing r with
  | nil => rfl
  | cons c t ih =>
      rw [readString_cons, readString_cons]
      cases hstep : r.2.step c with
      | none => rfl
      | some next =>
          have h := ih (r.1 ++ next.1, next.2)
          simp only [append_assoc] at h ⊢
          exact h

theorem readString_escapeChar_of_lt : ∀ n < 0x80,
    readString ([], .text []) (escapeChar (Char.ofNat n)) = some ([Char.ofNat n], .text []) := by
  decide +kernel

@[simp] theorem escapeChar_of_le (h : 0x80 ≤ c.toNat) : escapeChar c = [c] := by
  have hne : ∀ d : Char, d.toNat < 0x80 → c ≠ d := by
    rintro d hd rfl
    omega
  simp only [escapeChar, hne '"' (by decide), hne '\\' (by decide), hne '\x08' (by decide),
    hne '\x0c' (by decide), hne '\n' (by decide), hne '\r' (by decide), hne '\t' (by decide),
    if_false, if_neg (by omega : ¬ c.toNat < 0x20)]

@[simp] theorem lex_step_of_le {due : List (Nat × Nat)} (h : 0x80 ≤ c.toNat) :
    (Lex.text due).step c = (utf8Step due c).map fun due => ([c], .text due) := by
  have hne : ∀ d : Char, d.toNat < 0x80 → c ≠ d := by
    rintro d hd rfl
    omega
  cases due with
  | nil =>
      have hlow : ¬ (c.toNat < 0x20 ∨ c = '"') := by
        rintro (hc | hc)
        · omega
        · exact hne '"' (by decide) hc
      rw [Lex.step, if_neg (hne '\\' (by decide)), if_neg hlow]
      rfl
  | cons range due => rfl

theorem readString_escapeChar (h : utf8Step due c = some due') :
    readString ([], .text due) (escapeChar c) = some ([c], .text due') := by
  by_cases hc : c.toNat < 0x80
  · cases due with
    | nil =>
        have hnone : due' = [] := by
          rw [utf8Step, tails, if_pos hc] at h
          exact (Option.some.inj h).symm
        rw [hnone, ← Char.ofNat_toNat c]
        exact readString_escapeChar_of_lt c.toNat hc
    | cons range due =>
        have hle := le_of_continuation (utf8Step_cons h).1
        omega
  · rw [escapeChar_of_le (by omega), readString_cons, lex_step_of_le (by omega), h]
    rfl

theorem readString_escape {t x : List Char}
    (h : utf8Run due t = some due') :
    readString (x, .text due) (escape t) = some (x ++ t, .text due') := by
  induction t generalizing due x with
  | nil =>
      cases h
      simp [escape]
  | cons c t ih =>
      obtain ⟨next, hnext, hrest⟩ := Option.bind_eq_some_iff.1 h
      have hfirst := readString_from x ([], .text due) (escapeChar c)
      rw [append_nil, readString_escapeChar hnext] at hfirst
      have hsplit : escape (c :: t) = escapeChar c ++ escape t := rfl
      rw [hsplit, readString_append, hfirst, map_some, bind_some,
        ih hrest, append_assoc]
      rfl

variable {t : List Char}

@[simp] theorem escape_append (t u : List Char) : escape (t ++ u) = escape t ++ escape u :=
  flatMap_append

@[simp] theorem run_nil (s : State) : run s [] = some s := rfl

theorem run_cons (s : State) (c : Char) (t : List Char) :
    run s (c :: t) = (step s c).bind fun s => run s t := rfl

/-- A text read in two parts. -/
theorem run_append (s : State) (t u : List Char) :
    run s (t ++ u) = (run s t).bind fun s => run s u :=
  foldlM_append

theorem step_inString (stack : List Frame) (text : List Char) (lex : Lex) (c : Char) :
    step ⟨stack, .inString text lex⟩ c =
      if c = '"' ∧ lex = .text [] then some ⟨stack, .done (.string text)⟩
      else (lex.step c).map fun next => ⟨stack, .inString (text ++ next.1) next.2⟩ := rfl

theorem step_inKey (stack : List Frame) (read : List (List Char × Value)) (text : List Char)
    (lex : Lex) (c : Char) :
    step ⟨stack, .inKey read text lex⟩ c =
      if c = '"' ∧ lex = .text [] then some ⟨stack, .colon read text⟩
      else (lex.step c).map fun next => ⟨stack, .inKey read (text ++ next.1) next.2⟩ := rfl

variable {stack : List Frame}

theorem run_inString {r r' : List Char × Lex}
    (h : readString r t = some r') :
    run ⟨stack, .inString r.1 r.2⟩ t = some ⟨stack, .inString r'.1 r'.2⟩ := by
  induction t generalizing r with
  | nil =>
      cases h
      rfl
  | cons c t ih =>
      rw [readString_cons] at h
      obtain ⟨next, hnext, hrest⟩ := Option.bind_eq_some_iff.1 h
      have hopen : ¬ (c = '"' ∧ r.2 = .text []) := by
        rintro ⟨rfl, hlex⟩
        rw [hlex] at hnext
        cases hnext
      rw [run_cons, step_inString, if_neg hopen, hnext]
      exact ih hrest

variable {read : List (List Char × Value)}

theorem run_inKey {r r' : List Char × Lex} (h : readString r t = some r') :
    run ⟨stack, .inKey read r.1 r.2⟩ t = some ⟨stack, .inKey read r'.1 r'.2⟩ := by
  induction t generalizing r with
  | nil =>
      cases h
      rfl
  | cons c t ih =>
      rw [readString_cons] at h
      obtain ⟨next, hnext, hrest⟩ := Option.bind_eq_some_iff.1 h
      have hopen : ¬ (c = '"' ∧ r.2 = .text []) := by
        rintro ⟨rfl, hlex⟩
        rw [hlex] at hnext
        cases hnext
      rw [run_cons, step_inKey, if_neg hopen, hnext]
      exact ih hrest

/-- A quoted text is read as a key. -/
@[simp] theorem run_quote_key {first : Bool}
    (h : ValidUtf8 t) :
    run ⟨stack, .key read first⟩ (quote t) = some ⟨stack, .colon read t⟩ := by
  have hread := readString_escape (x := []) h
  have hopen : step ⟨stack, .key read first⟩ '"' = some ⟨stack, .inKey read [] (.text [])⟩ := rfl
  rw [quote, cons_append, run_cons, hopen, bind_some, run_append, run_inKey hread]
  rfl

theorem value?_done (stack : List Frame) {mode : Mode} {v : Value} {c : Char}
    (h : mode.value? = some v) (hc : c ∈ [',', ']', '\x7d']) :
    step ⟨stack, mode⟩ c = afterValue stack v c := by
  cases mode with
  | number numeral part =>
      rw [Mode.value?] at h
      split at h
      · rename_i hpart
        cases h
        have hend : part.next c = none := by
          simp only [mem_cons, not_mem_nil, or_false] at hc
          rcases hc with rfl | rfl | rfl <;> cases part <;> rfl
        simp only [step, hend, hpart, if_true]
      · cases h
  | done w =>
      cases h
      rfl
  | _ => cases h

def State.over (s : State) (base : List Frame) : State := ⟨s.stack ++ base, s.mode⟩

theorem beginValue_base (stack base : List Frame) (c : Char) :
    beginValue (stack ++ base) c = (beginValue stack c).map fun s => s.over base := by
  unfold beginValue
  split_ifs <;> rfl

variable {s : State}

theorem closeEmpty_base (base : List Frame)
    (h : closeEmpty stack = some s) : closeEmpty (stack ++ base) = some (s.over base) := by
  cases stack with
  | nil => cases h
  | cons frame stack =>
      cases frame with
      | items read =>
          cases h
          rfl
      | field read key => cases h

variable {v : Value}

theorem afterValue_base (base : List Frame) (h : afterValue stack v c = some s) :
    afterValue (stack ++ base) v c = some (s.over base) := by
  unfold afterValue at h ⊢
  split at h
  · rename_i hblank
    cases h
    rw [if_pos hblank]
    rfl
  · rename_i hblank
    cases stack with
    | nil => cases h
    | cons frame stack =>
        cases frame with
        | items read =>
            split_ifs at h ⊢ <;> cases h <;> rfl
        | field read key =>
            split_ifs at h ⊢ <;> cases h <;> rfl

/-- The machine looks at the top of its stack only. -/
theorem step_base {s s' : State} (base : List Frame) (h : step s c = some s') :
    step (s.over base) c = some (s'.over base) := by
  obtain ⟨stack, mode⟩ := s
  cases mode with
  | value first =>
      simp only [step, State.over] at h ⊢
      split_ifs at h ⊢
      · cases h
        rfl
      · exact closeEmpty_base base h
      · rw [beginValue_base, h]
        rfl
  | key read first =>
      simp only [step, State.over] at h ⊢
      split_ifs at h ⊢ <;> cases h <;> rfl
  | inKey read text lex =>
      simp only [step, State.over] at h ⊢
      split_ifs at h ⊢
      · cases h
        rfl
      · obtain ⟨next, hnext, rfl⟩ := Option.map_eq_some_iff.1 h
        rw [hnext]
        rfl
  | colon read key =>
      simp only [step] at h ⊢
      split_ifs at h ⊢ <;> cases h <;> rfl
  | inString text lex =>
      simp only [step, State.over] at h ⊢
      split_ifs at h ⊢
      · cases h
        rfl
      · obtain ⟨next, hnext, rfl⟩ := Option.map_eq_some_iff.1 h
        rw [hnext]
        rfl
  | literal word read =>
      simp only [step, State.over] at h ⊢
      split_ifs at h ⊢ <;> cases h <;> rfl
  | number numeral part =>
      simp only [step, State.over] at h ⊢
      cases hpart : part.next c with
      | some next =>
          rw [hpart] at h
          cases h
          rfl
      | none =>
          simp only [hpart, ite_none_right_eq_some] at h ⊢
          exact ⟨h.1, afterValue_base base h.2⟩
  | done v => exact afterValue_base base h

/-- Frames further down the stack are not looked at. -/
theorem run_base {s s' : State} (base : List Frame) (h : run s t = some s') :
    run (s.over base) t = some (s'.over base) := by
  induction t generalizing s with
  | nil =>
      cases h
      rfl
  | cons c t ih =>
      obtain ⟨next, hnext, hrest⟩ := Option.bind_eq_some_iff.1 h
      rw [run_cons, step_base base hnext]
      exact ih hrest

theorem parse_eq_some :
    parse t = some v ↔ ∃ mode, run ⟨[], .value false⟩ t = some ⟨[], mode⟩ ∧
      mode.value? = some v := by
  unfold parse
  constructor
  · intro h
    split at h
    · rename_i mode hrun
      exact ⟨mode, hrun, h⟩
    · cases h
  · rintro ⟨mode, hrun, hv⟩
    rw [hrun]
    exact hv

/-- A text that parses is read as a value on top of any stack. -/
theorem run_value (stack : List Frame) (h : parse t = some v) :
    ∃ mode, run ⟨stack, .value false⟩ t = some ⟨stack, mode⟩ ∧ mode.value? = some v := by
  obtain ⟨mode, hrun, hv⟩ := parse_eq_some.1 h
  exact ⟨mode, run_base stack hrun, hv⟩

@[simp] theorem run_comma {key : List Char}
    {mode : Mode} (h : mode.value? = some v) :
    run ⟨.field read key :: stack, mode⟩ ", ".toList =
      some ⟨stack, .key (read ++ [(key, v)]) false⟩ := by
  have hcomma := value?_done (.field read key :: stack) h (c := ',') (by decide)
  rw [show ", ".toList = [',', ' '] from rfl, run_cons, hcomma]
  rfl

@[simp] theorem run_close {key : List Char}
    {mode : Mode} (h : mode.value? = some v) :
    run ⟨.field read key :: stack, mode⟩ ['\x7d'] =
      some ⟨stack, .done (.object (read ++ [(key, v)]))⟩ := by
  have hclose := value?_done (.field read key :: stack) h (c := '\x7d') (by decide)
  rw [run_cons, hclose]
  rfl

@[simp] theorem parse_quote (h : ValidUtf8 t) : parse (quote t) = some (.string t) := by
  have hread := readString_escape (x := []) h
  have hopen : step ⟨[], .value false⟩ '"' = some ⟨[], .inString [] (.text [])⟩ := rfl
  refine parse_eq_some.2 ⟨.done (.string t), ?_, rfl⟩
  rw [quote, cons_append, run_cons, hopen, bind_some, run_append,
    run_inString hread]
  rfl

/-- Behind a finished value stands blank space only. -/
theorem run_done (h : run ⟨[], .done v⟩ t = some s) :
    t.all blank := by
  induction t with
  | nil => rfl
  | cons c t ih =>
      obtain ⟨next, hnext, hrest⟩ := Option.bind_eq_some_iff.1 h
      simp only [step, afterValue, ite_none_right_eq_some] at hnext
      obtain ⟨hblank, hs⟩ := hnext
      cases hs
      rw [all_cons, hblank, ih hrest]
      rfl

theorem not_parse_object {t u : List Char} {fields : List (List Char × Value)}
    (hrun : run ⟨[], .value false⟩ (t ++ u) = some s) (hu : u.all blank = false) :
    parse t ≠ some (.object fields) := by
  intro h
  obtain ⟨mode, hfirst, hv⟩ := parse_eq_some.1 h
  have hmode : mode = .done (.object fields) := by
    cases mode with
    | number numeral part =>
        rw [Mode.value?] at hv
        split at hv <;> cases hv
    | done w =>
        cases hv
        rfl
    | _ => cases hv
  rw [run_append, hfirst, hmode] at hrun
  rw [run_done hrun] at hu
  cases hu

/-- The byte stands for itself in a string. -/
def plain (c : Char) : Bool := 0x20 ≤ c.toNat ∧ c.toNat < 0x80 ∧ c ≠ '"' ∧ c ≠ '\\'

/-- The machine is inside a string, between two characters. -/
def State.inText (s : State) : Bool :=
  match s.mode with
  | .inKey _ _ lex => lex = .text []
  | .inString _ lex => lex = .text []
  | _ => false

@[simp] theorem lex_step_plain (h : plain c) :
    (Lex.text []).step c = some ([c], .text []) := by
  simp only [plain, decide_eq_true_eq] at h
  obtain ⟨hlow, hhigh, hquote, hback⟩ := h
  have hctrl : ¬ (c.toNat < 0x20 ∨ c = '"') := by
    rintro (hc | hc)
    · omega
    · exact hquote hc
  rw [Lex.step, if_neg hback, if_neg hctrl, tails, if_pos hhigh]
  rfl

theorem step_inText (hs : s.inText) (hc : plain c) :
    ∃ s', step s c = some s' ∧ s'.inText := by
  have hquote : c ≠ '"' := by
    rintro rfl
    exact absurd hc (by decide)
  obtain ⟨stack, mode⟩ := s
  cases mode with
  | inKey read text lex =>
      simp only [State.inText, decide_eq_true_eq] at hs
      subst hs
      refine ⟨⟨stack, .inKey read (text ++ [c]) (.text [])⟩, ?_, rfl⟩
      rw [step_inKey, if_neg fun h => hquote h.1, lex_step_plain hc]
      rfl
  | inString text lex =>
      simp only [State.inText, decide_eq_true_eq] at hs
      subst hs
      refine ⟨⟨stack, .inString (text ++ [c]) (.text [])⟩, ?_, rfl⟩
      rw [step_inString, if_neg fun h => hquote h.1, lex_step_plain hc]
      rfl
  | _ => cases hs

theorem run_inText (hs : s.inText) (ht : t.all plain) :
    ∃ s', run s t = some s' ∧ s'.inText := by
  induction t generalizing s with
  | nil => exact ⟨s, rfl, hs⟩
  | cons c t ih =>
      rw [all_cons, Bool.and_eq_true] at ht
      obtain ⟨next, hnext, htext⟩ := step_inText hs ht.1
      obtain ⟨s', hrun, hs'⟩ := ih htext ht.2
      refine ⟨s', ?_, hs'⟩
      rw [run_cons, hnext]
      exact hrun

theorem lex_step_angle {lex : Lex} {next : List Char × Lex} (h : lex.step '<' = some next) :
    next.2 = .text [] := by
  cases lex with
  | text due =>
      cases due with
      | nil =>
          cases h
          rfl
      | cons range due => cases h
  | _ => cases h

theorem step_angle {s s' : State} (h : step s '<' = some s') : s'.inText := by
  have hafter : ∀ v, afterValue s.stack v '<' = none := by
    intro v
    rcases s.stack with _ | ⟨_ | _, _⟩ <;> rfl
  obtain ⟨stack, mode⟩ := s
  cases mode with
  | value first => cases first <;> cases h
  | key read first => cases first <;> cases h
  | inKey read text lex =>
      obtain ⟨next, hnext, rfl⟩ := Option.map_eq_some_iff.1 h
      simp [State.inText, lex_step_angle hnext]
  | colon read key => cases h
  | inString text lex =>
      obtain ⟨next, hnext, rfl⟩ := Option.map_eq_some_iff.1 h
      simp [State.inText, lex_step_angle hnext]
  | literal word read =>
      have hword : word.text[read]? ≠ some '<' := by
        intro hmem
        have := mem_of_getElem? hmem
        cases word <;> revert this <;> decide
      simp only [step, if_pos hword] at h
      cases h
  | number numeral part =>
      have hpart : part.next '<' = none := by cases part <;> rfl
      simp only [step, hpart] at h
      split at h
      · rw [hafter] at h
        cases h
      · cases h
  | done v =>
      have hnone : step ⟨stack, .done v⟩ '<' = none := hafter v
      rw [hnone] at h
      cases h

@[simp] theorem value?_inText (h : s.inText) : s.mode.value? = none := by
  obtain ⟨stack, mode⟩ := s
  cases mode <;> first | rfl | cases h

theorem parse_angle {t u : List Char} (hu : u.all plain) : parse (t ++ '<' :: u) = none := by
  rw [eq_none_iff_forall_not_mem]
  intro v hv
  obtain ⟨mode, hrun, hmode⟩ := parse_eq_some.1 hv
  rw [run_append] at hrun
  obtain ⟨s, -, hrest⟩ := Option.bind_eq_some_iff.1 hrun
  rw [run_cons] at hrest
  obtain ⟨next, hnext, hlast⟩ := Option.bind_eq_some_iff.1 hrest
  obtain ⟨s', hs', htext⟩ := run_inText (step_angle hnext) hu
  rw [hs'] at hlast
  cases hlast
  rw [value?_inText htext] at hmode
  cases hmode

end JsonText
