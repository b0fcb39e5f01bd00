import SourceTrees.Decimal.Shortest
import SourceTrees.Text.Quoted

/-!
# Structured values

The values that travel in requests, pointers, error details and answers: the data model of JSON,
with whole numbers of any size apart from floating-point ones and with object members in order.

## Results

* `Json.pretty` prints a document over several lines, two blanks to a level, in the basic alphabet
  only.
* `Json.compact` prints it on one line.
* `Json.display` and `Json.literal` are the forms used inside messages: the literal of a text is
  quoted, its display is the text itself.
* `Json.typeName` names the kind of a value in messages.
* `Json.object` builds an object in which a later member takes the place of an earlier one of the
  same name.
-/

set_option autoImplicit false

namespace SourceTrees

/-- A structured value. -/
inductive Json where
  | null
  | bool (b : Bool)
  | int (n : Int)
  | float (x : Float)
  | str (s : String)
  | arr (items : List Json)
  | obj (members : List (String × Json))
  deriving Inhabited, BEq

namespace Json

open SourceTrees.Text

/-- Puts a member into an object's members: in place of the one of the same name, else last. -/
def putMember (name : String) (value : Json) : List (String × Json) → List (String × Json)
  | [] => [(name, value)]
  | m :: rest => if m.1 = name then (name, value) :: rest else m :: putMember name value rest

/-- The object with the given members, a later one of a name in place of the earlier. -/
def object (members : List (String × Json)) : Json :=
  .obj (members.foldl (fun ms m => putMember m.1 m.2 ms) [])

/-- The member of the given name, if the value is an object that has it. -/
def member? (name : String) : Json → Option Json
  | obj members => (members.find? (·.1 == name)).map (·.2)
  | _ => none

/-- A list of texts. -/
def strings (texts : List String) : Json := .arr (texts.map .str)

/-- An optional text; its absence is null. -/
def ofOption (text : Option String) : Json := (text.map Json.str).getD .null

/-- What a value is called in a message. -/
def typeName : Json → String
  | null => "NoneType"
  | bool _ => "bool"
  | int _ => "int"
  | float _ => "float"
  | str _ => "str"
  | arr _ => "list"
  | obj _ => "dict"

/-- Does the value count as present?  Null, false, zero and everything empty do not. -/
def isPresent : Json → Bool
  | null => false
  | bool b => b
  | int n => n != 0
  | float x => !(x == 0.0)
  | str s => !s.isEmpty
  | arr items => !items.isEmpty
  | obj members => !members.isEmpty

/-! ## Inside messages -/

mutual
/-- The literal of a value. -/
def literal : Json → String
  | null => "None"
  | bool true => "True"
  | bool false => "False"
  | int n => toString n
  | float x => Decimal.render x
  | str s => quoted s
  | arr items => "[" ++ literalItems items ++ "]"
  | obj members => "\x7b" ++ literalMembers members ++ "\x7d"

/-- Literals with commas between them. -/
def literalItems : List Json → String
  | [] => ""
  | [item] => item.literal
  | item :: rest => item.literal ++ ", " ++ literalItems rest

/-- Literals of members with commas between them. -/
def literalMembers : List (String × Json) → String
  | [] => ""
  | [(name, value)] => quoted name ++ ": " ++ value.literal
  | (name, value) :: rest => quoted name ++ ": " ++ value.literal ++ ", " ++ literalMembers rest
end

/-- A value inside running text: a text as it is, anything else as its literal. -/
def display : Json → String
  | str s => s
  | value => value.literal

/-! ## Documents -/

/-- One character of a quoted string in the basic alphabet.  Beyond it stand escapes of four
    digits, two of them for a character above U+FFFF. -/
def escapedChar (c : Char) : List Char :=
  if c = '"' then ['\\', '"']
  else if c = '\\' then ['\\', '\\']
  else if c = '\n' then ['\\', 'n']
  else if c = '\r' then ['\\', 'r']
  else if c = '\t' then ['\\', 't']
  else if c.toNat = 8 then ['\\', 'b']
  else if c.toNat = 12 then ['\\', 'f']
  else if 0x20 ≤ c.toNat ∧ c.toNat < 0x7F then [c]
  else if c.toNat ≤ 0xFFFF then '\\' :: 'u' :: hexDigits 4 c.toNat
  else
    let n := c.toNat - 0x10000
    '\\' :: 'u' :: hexDigits 4 (0xD800 + n / 0x400) ++
      '\\' :: 'u' :: hexDigits 4 (0xDC00 + n % 0x400)

/-- A string of a document, with its quotes. -/
def escaped (s : String) : String :=
  String.ofList ('"' :: s.toList.flatMap escapedChar ++ ['"'])

/-- A floating-point number of a document. -/
def number (x : Float) : String :=
  if x.isNaN then "NaN" else if x.isInf then (if x > 0 then "Infinity" else "-Infinity")
  else Decimal.render x

/-- The start of a line at the given level. -/
def newline (level : Nat) : String := String.ofList ('\n' :: List.replicate (2 * level) ' ')

mutual
/-- Prints a value whose first line begins at the given level. -/
def prettyAt (level : Nat) : Json → String
  | null => "null"
  | bool true => "true"
  | bool false => "false"
  | int n => toString n
  | float x => number x
  | str s => escaped s
  | arr [] => "[]"
  | arr (item :: rest) =>
    "[" ++ newline (level + 1) ++ item.prettyAt (level + 1) ++ prettyItems (level + 1) rest ++
      newline level ++ "]"
  | obj [] => "\x7b\x7d"
  | obj ((name, value) :: rest) =>
    "\x7b" ++ newline (level + 1) ++ escaped name ++ ": " ++ value.prettyAt (level + 1) ++
      prettyMembers (level + 1) rest ++ newline level ++ "\x7d"

/-- Prints the items after the first, each after a comma and on a line of its own. -/
def prettyItems (level : Nat) : List Json → String
  | [] => ""
  | item :: rest => "," ++ newline level ++ item.prettyAt level ++ prettyItems level rest

/-- Prints the members after the first, each after a comma and on a line of its own. -/
def prettyMembers (level : Nat) : List (String × Json) → String
  | [] => ""
  | (name, value) :: rest =>
    "," ++ newline level ++ escaped name ++ ": " ++ value.prettyAt level ++
      prettyMembers level rest
end

/-- The document over several lines. -/
def pretty (value : Json) : String := value.prettyAt 0

mutual
/-- The document on one line, without blanks. -/
def compact : Json → String
  | null => "null"
  | bool true => "true"
  | bool false => "false"
  | int n => toString n
  | float x => number x
  | str s => escaped s
  | arr items => "[" ++ compactItems items ++ "]"
  | obj members => "\x7b" ++ compactMembers members ++ "\x7d"

/-- Items with commas between them. -/
def compactItems : List Json → String
  | [] => ""
  | [item] => item.compact
  | item :: rest => item.compact ++ "," ++ compactItems rest

/-- Members with commas between them. -/
def compactMembers : List (String × Json) → String
  | [] => ""
  | [(name, value)] => escaped name ++ ":" ++ value.compact
  | (name, value) :: rest => escaped name ++ ":" ++ value.compact ++ "," ++ compactMembers rest
end

end Json

end SourceTrees
