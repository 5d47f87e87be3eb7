import JsonCollections.Json.Basic
import JsonCollections.Text.Hex

set_option autoImplicit false

/-!
# Json: reading text

A reader takes a prefix of the text and returns the rest.  The grammar is the strict one: four
blank characters, no trailing commas, no leading zeros, no raw control characters, surrogate
escapes in pairs only.  Arrays and objects may be nested `maxDepth` deep.

A text can fail in two ways: it is `cutShort` if it ends inside a document and `malformed`
otherwise, decided at the first character that no document can continue with.
-/

namespace JsonCollections.Json

/-! ## Faults -/

/-- Why a text is no document. -/
inductive Fault where
  /-- the text ends before the document does -/
  | cutShort
  /-- the text goes on in a way no document does -/
  | malformed
  deriving DecidableEq, Repr, Inhabited

/-- A reader of a prefix of the text. -/
abbrev Step (α : Type) : Type := List Char → Except Fault (α × List Char)

namespace Reader

/-! ## Characters -/

/-- The blanks that may stand between tokens. -/
def isBlank (c : Char) : Bool := c == ' ' || c == '\t' || c == '\n' || c == '\r'

/-- The text after its leading blanks. -/
def skipBlanks (s : List Char) : List Char := s.dropWhile isBlank

/-- The fault of a place where something must follow and does not. -/
def missing : List Char → Fault
  | [] => .cutShort
  | _ :: _ => .malformed

/-- Takes one given character. -/
def char (c : Char) : Step Unit
  | [] => .error .cutShort
  | d :: rest => if d = c then .ok ((), rest) else .error .malformed

/-- Takes a given word and returns a given value. -/
def word {α : Type} : List Char → α → Step α
  | [], value, s => .ok (value, s)
  | c :: cs, value, s => do
    let (_, rest) ← char c s
    word cs value rest

/-! ## Numbers -/

/-- Takes at least one digit. -/
def digits (s : List Char) : Except Fault (List Char × List Char) :=
  match Numeral.digits s with
  | ([], rest) => .error (missing rest)
  | found => .ok found

/-- The whole part of a number: no zero stands in front of another digit. -/
def whole (s : List Char) : Except Fault (List Char × List Char) := do
  let (found, rest) ← digits s
  match found with
  | '0' :: _ :: _ => .error .malformed
  | _ => .ok (found, rest)

/-- The fraction part of a number, if there is a point. -/
def fraction : Step (Option (List Char))
  | '.' :: s => do
    let (found, rest) ← digits s
    .ok (some found, rest)
  | s => .ok (none, s)

/-- The exponent of a number, if there is an `e`. -/
def exponent : Step (Option Int)
  | c :: s =>
    if c = 'e' ∨ c = 'E' then do
      let (negative, body) := Numeral.sign s
      let (found, rest) ← digits body
      let n : Nat := Nat.ofDigitChars 10 found 0
      .ok (some (if negative then -(n : Int) else n), rest)
    else .ok (none, c :: s)
  | [] => .ok (none, [])

/-- Takes a number.  One beyond the largest double is refused. -/
def number (s : List Char) : Except Fault (Number × List Char) := do
  let (negative, body) :=
    match s with
    | '-' :: t => (true, t)
    | t => (false, t)
  let (whole, rest) ← whole body
  let (fraction, rest) ← fraction rest
  let (exponent, rest) ← exponent rest
  match Number.ofNumeral? negative whole fraction exponent with
  | some n => .ok (n, rest)
  | none => .error .malformed

/-! ## Strings -/

/-- Takes four hexadecimal digits.  The text is cut short if fewer than four bytes are left. -/
def codeUnit (s : List Char) : Except Fault (Nat × List Char) :=
  match s with
  | a :: b :: c :: d :: rest =>
    if [a, b, c, d].all fun digit => (Text.hexDigit? digit).isSome then
      .ok (Text.hexValue [a, b, c, d], rest)
    else .error .malformed
  | short =>
    if (String.ofList short).utf8ByteSize < 4 then .error .cutShort else .error .malformed

/-- Takes the character that an escape with the given first code unit stands for: the unit itself,
or the pair it begins.  A surrogate outside a pair is refused. -/
def escapedUnit (unit : Nat) (s : List Char) : Except Fault (Char × List Char) :=
  if 0xDC00 ≤ unit ∧ unit ≤ 0xDFFF then .error .malformed
  else if unit < 0xD800 ∨ 0xDBFF < unit then .ok (Char.ofNat unit, s)
  else do
    let (_, s) ← char '\\' s
    let (_, s) ← char 'u' s
    let (low, s) ← codeUnit s
    if 0xDC00 ≤ low ∧ low ≤ 0xDFFF then
      .ok (Char.ofNat (0x10000 + (unit - 0xD800) * 0x400 + (low - 0xDC00)), s)
    else .error .malformed

/-- Takes what follows a backslash. -/
def escaped : Step Char
  | [] => .error .cutShort
  | c :: s =>
    match c with
    | '"' => .ok ('"', s)
    | '\\' => .ok ('\\', s)
    | '/' => .ok ('/', s)
    | 'b' => .ok ('\x08', s)
    | 'f' => .ok ('\x0c', s)
    | 'n' => .ok ('\n', s)
    | 'r' => .ok ('\r', s)
    | 't' => .ok ('\t', s)
    | 'u' => do
      let (unit, s) ← codeUnit s
      escapedUnit unit s
    | _ => .error .malformed

/-- Takes one character of a string, or the quote that ends it. -/
def character : Step (Option Char)
  | [] => .error .cutShort
  | c :: s =>
    if c = '"' then .ok (none, s)
    else if c = '\\' then do
      let (c, s) ← escaped s
      .ok (some c, s)
    else if c.toNat < 0x20 then .error .malformed
    else .ok (some c, s)

/-- Takes the characters up to the closing quote.  Every step takes at least one, so the length of
the text is fuel enough. -/
def characters : Nat → Step (List Char)
  | 0, _ => .error .cutShort
  | fuel + 1, s => do
    match ← character s with
    | (none, rest) => .ok ([], rest)
    | (some c, rest) =>
      let (cs, rest) ← characters fuel rest
      .ok (c :: cs, rest)

/-- Takes a string whose opening quote has been taken. -/
def string (s : List Char) : Except Fault (String × List Char) := do
  let (cs, rest) ← characters (s.length + 1) s
  .ok (String.ofList cs, rest)

/-! ## Documents -/

/-- How deep arrays and objects may be nested. -/
def maxDepth : Nat := 127

/-- Takes the key of an entry. -/
def key (s : List Char) : Except Fault (String × List Char) := do
  let (_, s) ← char '"' (skipBlanks s)
  string s

/-- Takes the colon between a key and its value. -/
def colon (s : List Char) : Except Fault (Unit × List Char) := char ':' (skipBlanks s)

mutual

/-- Takes a document with at most `room` levels of nesting. -/
def value : Nat → Nat → Step Json
  | 0, _, _ => .error .malformed
  | fuel + 1, room, s =>
    match skipBlanks s with
    | [] => .error .cutShort
    | 'n' :: s => word ['u', 'l', 'l'] .null s
    | 't' :: s => word ['r', 'u', 'e'] (.bool true) s
    | 'f' :: s => word ['a', 'l', 's', 'e'] (.bool false) s
    | '"' :: s => do
      let (text, s) ← string s
      .ok (.string text, s)
    | '[' :: s =>
      match room with
      | 0 => .error .malformed
      | room + 1 =>
        match skipBlanks s with
        | ']' :: s => .ok (.array [], s)
        | s => do
          let (found, s) ← items fuel room s
          .ok (.array found, s)
    | '\x7b' :: s =>
      match room with
      | 0 => .error .malformed
      | room + 1 =>
        match skipBlanks s with
        | '\x7d' :: s => .ok (.object [], s)
        | s => do
          let (found, s) ← members fuel room s
          .ok (.object (Entries.ofList found), s)
    | c :: s =>
      if c = '-' ∨ c.isDigit then do
        let (n, s) ← number (c :: s)
        .ok (.number n, s)
      else .error .malformed

/-- Takes the items of an array that is not empty, and the bracket that closes it. -/
def items : Nat → Nat → Step (List Json)
  | 0, _, _ => .error .malformed
  | fuel + 1, room, s => do
    let (v, s) ← value fuel room s
    match skipBlanks s with
    | ',' :: s =>
      let (rest, s) ← items fuel room s
      .ok (v :: rest, s)
    | ']' :: s => .ok ([v], s)
    | s => .error (missing s)

/-- Takes the entries of an object that is not empty, and the brace that closes it.  Repeated keys
are kept as they are written. -/
def members : Nat → Nat → Step (List (String × Json))
  | 0, _, _ => .error .malformed
  | fuel + 1, room, s => do
    let (k, s) ← key s
    let (_, s) ← colon s
    let (v, s) ← value fuel room s
    match skipBlanks s with
    | ',' :: s =>
      let (rest, s) ← members fuel room s
      .ok ((k, v) :: rest, s)
    | '\x7d' :: s => .ok ([(k, v)], s)
    | s => .error (missing s)

end

/-- Enough fuel for a text: a document takes a character for each array or object it enters and
for each item after the first. -/
def fuelFor (s : List Char) : Nat := 2 * s.length + 2

/-- Takes the document at the beginning of a text, blanks before it apart. -/
def document (s : List Char) : Except Fault (Json × List Char) := value (fuelFor s) maxDepth s

end Reader

/-- The document that is the whole text, blanks around it apart. -/
def readChars (s : List Char) : Except Fault Json := do
  let (v, rest) ← Reader.document s
  if Reader.skipBlanks rest = [] then .ok v else .error .malformed

/-- The document that is the whole text, blanks around it apart. -/
def read (text : String) : Except Fault Json := readChars text.toList

/-- The document at the beginning of a text; what follows it is not looked at. -/
def readLeading (text : String) : Except Fault Json := do
  let (v, _) ← Reader.document text.toList
  .ok v

end JsonCollections.Json
