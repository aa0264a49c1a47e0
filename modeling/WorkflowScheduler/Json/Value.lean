/-!
# JSON values and how they are written

A JSON value whose numbers are whole, with object members in the order in which they are written.
Strings are escaped as little as the format allows: the quote, the backslash and control characters,
of which five have a short escape.

## Main definitions

* `Json.Value`
* `Json.Value.compact`: without blanks
* `Json.Value.pretty`: one member or element a line, indented by two blanks a level
-/

namespace WorkflowScheduler.Json

/-- A JSON value with whole numbers. -/
inductive Value where
  | null
  | bool (b : Bool)
  | int (n : Int)
  | text (s : String)
  | array (items : List Value)
  | object (members : List (String × Value))
  deriving Inhabited

/-- The digit of a hexadecimal number, in lower case. -/
def hexDigit (n : Nat) : Char :=
  if n < 10 then Char.ofNat (48 + n) else Char.ofNat (87 + n)

/-- A character within a string. -/
def escape (c : Char) : List Char :=
  if c = '"' then ['\\', '"']
  else if c = '\\' then ['\\', '\\']
  else if c = '\n' then ['\\', 'n']
  else if c = '\r' then ['\\', 'r']
  else if c = '\t' then ['\\', 't']
  else if c = '\x08' then ['\\', 'b']
  else if c = '\x0c' then ['\\', 'f']
  else if c.toNat < 32 then ['\\', 'u', '0', '0', hexDigit (c.toNat / 16), hexDigit (c.toNat % 16)]
  else [c]

/-- A string between quotes. -/
def quoted (s : String) : String :=
  "\"" ++ String.ofList (s.toList.flatMap escape) ++ "\""

/-- Texts with a separator between them. -/
def separated (sep : String) : List String → String
  | [] => ""
  | [s] => s
  | s :: ss => s ++ sep ++ separated sep ss

namespace Value

/-- A list of whole numbers. -/
def ints (ns : List Int) : Value :=
  .array (ns.map .int)

/-- A list of strings. -/
def texts (ss : List String) : Value :=
  .array (ss.map .text)

/-- A value that may be missing, `null` if it is. -/
def option {α : Type} (f : α → Value) : Option α → Value
  | none => .null
  | some a => f a

mutual

/-- **A value without blanks.** -/
def compact : Value → String
  | .null => "null"
  | .bool true => "true"
  | .bool false => "false"
  | .int n => toString n
  | .text s => quoted s
  | .array items => "[" ++ separated "," (compactItems items) ++ "]"
  | .object members => "\x7b" ++ separated "," (compactMembers members) ++ "\x7d"

/-- The elements of an array, each without blanks. -/
def compactItems : List Value → List String
  | [] => []
  | v :: vs => compact v :: compactItems vs

/-- The members of an object, each without blanks. -/
def compactMembers : List (String × Value) → List String
  | [] => []
  | (k, v) :: ms => (quoted k ++ ":" ++ compact v) :: compactMembers ms

end

/-- A new line, indented to a depth. -/
def newLine (depth : Nat) : String :=
  "\n" ++ String.ofList (List.replicate (2 * depth) ' ')

/-- Lines between brackets, one level deeper than the brackets; without lines the brackets alone. -/
def block (opening closing : String) (depth : Nat) (lines : List String) : String :=
  if lines.isEmpty then opening ++ closing
  else opening ++ newLine (depth + 1) ++ separated ("," ++ newLine (depth + 1)) lines
    ++ newLine depth ++ closing

mutual

/-- A value at a depth, one member or element a line. -/
def prettyAt (depth : Nat) : Value → String
  | .null => "null"
  | .bool true => "true"
  | .bool false => "false"
  | .int n => toString n
  | .text s => quoted s
  | .array items => block "[" "]" depth (prettyItems (depth + 1) items)
  | .object members => block "\x7b" "\x7d" depth (prettyMembers (depth + 1) members)

/-- The elements of an array at a depth. -/
def prettyItems (depth : Nat) : List Value → List String
  | [] => []
  | v :: vs => prettyAt depth v :: prettyItems depth vs

/-- The members of an object at a depth. -/
def prettyMembers (depth : Nat) : List (String × Value) → List String
  | [] => []
  | (k, v) :: ms => (quoted k ++ ": " ++ prettyAt depth v) :: prettyMembers depth ms

end

/-- **A value over several lines.** -/
def pretty (v : Value) : String :=
  prettyAt 0 v

end Value

end WorkflowScheduler.Json
