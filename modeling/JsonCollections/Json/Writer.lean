import JsonCollections.Json.Basic

set_option autoImplicit false

/-!
# Json: writing text

One writer serves both layouts; they differ in what stands before an item, before a closing
bracket and between a key and its value.  Quotes, backslashes and control characters are escaped,
all else is written as it is.
-/

namespace JsonCollections.Json

/-! ## Strings -/

/-- The hexadecimal digits of a code unit, four of them. -/
def hexUnit (n : Nat) : List Char :=
  let text := Nat.toDigits 16 n
  List.replicate (4 - text.length) '0' ++ text

/-- The text of one character inside quotes. -/
def escape (c : Char) : List Char :=
  match c with
  | '"' => ['\\', '"']
  | '\\' => ['\\', '\\']
  | '\x08' => ['\\', 'b']
  | '\x0c' => ['\\', 'f']
  | '\n' => ['\\', 'n']
  | '\r' => ['\\', 'r']
  | '\t' => ['\\', 't']
  | c => if c.toNat < 0x20 then '\\' :: 'u' :: hexUnit c.toNat else [c]

/-- A string between quotes. -/
def quoted (s : String) : List Char := '"' :: (s.toList.flatMap escape ++ ['"'])

/-! ## Documents -/

/-- What is written between tokens: before an item or a closing bracket at a level of nesting, and
after the colon of an entry. -/
structure Spacing where
  lineBreak : Nat → List Char
  afterColon : List Char

namespace Spacing

/-- Nothing between tokens. -/
def none : Spacing := ⟨fun _ => [], []⟩

/-- Each item on a line of its own, two blanks in for each level, and a blank after a colon. -/
def lines : Spacing := ⟨fun level => '\n' :: List.replicate (2 * level) ' ', [' ']⟩

end Spacing

/-- Writes brackets around items; without items nothing stands between the brackets. -/
def bracketed (spacing : Spacing) (level : Nat) (opening closing : Char)
    (items : List (List Char)) : List Char :=
  if items = [] then [opening, closing]
  else
    opening :: ([','].intercalate (items.map (spacing.lineBreak (level + 1) ++ ·)) ++
      spacing.lineBreak level ++ [closing])

mutual

/-- The text of a document at a level of nesting. -/
def write (spacing : Spacing) (level : Nat) : Json → List Char
  | .null => ['n', 'u', 'l', 'l']
  | .bool true => ['t', 'r', 'u', 'e']
  | .bool false => ['f', 'a', 'l', 's', 'e']
  | .number n => n.text
  | .string s => quoted s
  | .array items => bracketed spacing level '[' ']' (writeItems spacing (level + 1) items)
  | .object fields =>
    bracketed spacing level '\x7b' '\x7d' (writeFields spacing (level + 1) fields)

/-- The texts of the items of an array. -/
def writeItems (spacing : Spacing) (level : Nat) : List Json → List (List Char)
  | [] => []
  | v :: rest => write spacing level v :: writeItems spacing level rest

/-- The texts of the entries of an object. -/
def writeFields (spacing : Spacing) (level : Nat) : List (String × Json) → List (List Char)
  | [] => []
  | (key, v) :: rest =>
    (quoted key ++ ':' :: spacing.afterColon ++ write spacing level v) ::
      writeFields spacing level rest

end

/-- The text on one line without blanks. -/
def compact (v : Json) : String := String.ofList (v.write .none 0)

/-- The text with one item a line. -/
def indented (v : Json) : String := String.ofList (v.write .lines 0)

end JsonCollections.Json
