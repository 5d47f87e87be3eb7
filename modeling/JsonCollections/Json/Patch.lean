import JsonCollections.Json.Pointer
import JsonCollections.Json.Reader

set_option autoImplicit false

/-!
# Json: patches

A patch is a list of operations done one after the other; the first that cannot be done ends it.
`run` works on a value, so a patch that fails changes nothing.

An operation is written as an object, or as the list of its name and its parts.  A patch is read
from a document, or straight from text: then the first thing that is wrong counts, be it in the
text or in the form of an operation.
-/

namespace JsonCollections.Json

/-! ## Operations -/

/-- A change of a document; places are kept as they are written. -/
inductive Operation where
  | add (path : String) (value : Json)
  | remove (path : String)
  | replace (path : String) (value : Json)
  | move (source path : String)
  | copy (source path : String)
  | test (path : String) (value : Json)
  deriving Repr, Inhabited

/-- Operations in the order in which they are done. -/
abbrev Patch : Type := List Operation

/-- Why an operation cannot be done. -/
inductive OperationFault where
  /-- the document has another value there -/
  | differs
  /-- there is no such source -/
  | source
  /-- there is no such place -/
  | path
  /-- the target lies inside the source -/
  | inside
  deriving DecidableEq, Repr

/-- The operation that failed: its index, its target and the cause. -/
structure PatchError where
  operation : Nat
  path : String
  fault : OperationFault
  deriving DecidableEq, Repr

/-- The text of a cause. -/
def OperationFault.message : OperationFault → String
  | .differs => "value did not match"
  | .source => "\"from\" path is invalid"
  | .path => "path is invalid"
  | .inside => "cannot move the value inside itself"

/-- The text for people. -/
def PatchError.message (e : PatchError) : String :=
  "Operation '/" ++ toString e.operation ++ "' failed at path '" ++ e.path ++ "': " ++
    e.fault.message

namespace Operation

/-- The target of the operation. -/
def path : Operation → String
  | .add path _ | .remove path | .replace path _ | .move _ path | .copy _ path | .test path _ => path

/-- A result, or the given cause. -/
def orFault {α : Type} (fault : OperationFault) : Option α → Except OperationFault α
  | some a => .ok a
  | none => .error fault

/-- Puts a value at a written place. -/
def putAt (document : Json) (path : String) (value : Json) : Except OperationFault Json :=
  orFault .path ((tokens? path.toList).bind (document.put? · value))

/-- Takes the value from a written place. -/
def takeFrom (document : Json) (path : String) (fault : OperationFault) :
    Except OperationFault (Json × Json) :=
  orFault fault ((tokens? path.toList).bind document.take?)

/-- The value at a written place. -/
def lookAt (document : Json) (path : String) (fault : OperationFault) :
    Except OperationFault Json :=
  orFault fault ((tokens? path.toList).bind document.at?)

/-- The document after the operation. -/
def run (document : Json) : Operation → Except OperationFault Json
  | .add path value => putAt document path value
  | .remove path => do
    let (_, rest) ← takeFrom document path .path
    .ok rest
  | .replace path value =>
    orFault .path ((tokens? path.toList).bind (document.alter? fun _ => some value))
  | .move source path => do
    if (source.toList ++ ['/']).isPrefixOf path.toList then .error .inside
    else
      let (value, rest) ← takeFrom document source .source
      putAt rest path value
  | .copy source path => do
    let value ← lookAt document source .source
    putAt document path value
  | .test path value => do
    let found ← lookAt document path .path
    if found.same value then .ok document else .error .differs

end Operation

namespace Patch

/-- Does the operations from the given index on. -/
def runFrom (index : Nat) (document : Json) : Patch → Except PatchError Json
  | [] => .ok document
  | op :: rest =>
    match op.run document with
    | .ok next => runFrom (index + 1) next rest
    | .error fault => .error ⟨index, op.path, fault⟩

/-- The document after the patch. -/
def run (patch : Patch) (document : Json) : Except PatchError Json := runFrom 0 document patch

end Patch

/-! ## Reading patches -/

/-- The value of a key that occurs once. -/
def soleValue? (entries : List (String × Json)) (key : String) : Option Json :=
  match entries.filter (·.1 == key) with
  | [(_, v)] => some v
  | _ => none

/-- The text under a key that occurs once. -/
def soleString? (entries : List (String × Json)) (key : String) : Option String :=
  match soleValue? entries key with
  | some (.string s) => some s
  | _ => none

/-- The parts of an operation besides its name, in the order in which a list gives them. -/
def Operation.partNames : String → List String
  | "remove" => ["path"]
  | "move" | "copy" => ["from", "path"]
  | _ => ["path", "value"]

/-- The operation that entries describe; keys it has no use for are passed over. -/
def Operation.ofEntries? (entries : List (String × Json)) : Option Operation := do
  let name ← soleString? entries "op"
  let path ← soleString? entries "path"
  match name with
  | "add" => (soleValue? entries "value").map (.add path ·)
  | "remove" => some (.remove path)
  | "replace" => (soleValue? entries "value").map (.replace path ·)
  | "move" => (soleString? entries "from").map (.move · path)
  | "copy" => (soleString? entries "from").map (.copy · path)
  | "test" => (soleValue? entries "value").map (.test path ·)
  | _ => none

/-- The operation that a list describes: its name, then its parts. -/
def Operation.ofList? : List Json → Option Operation
  | .string name :: parts =>
    let keys := partNames name
    if parts.length = keys.length then ofEntries? (("op", .string name) :: keys.zip parts)
    else none
  | _ => none

/-- The operation that a document is. -/
def Operation.ofJson? : Json → Option Operation
  | .object fields => ofEntries? fields
  | .array items => ofList? items
  | _ => none

/-- The patch that a document is. -/
def Patch.ofJson? : Json → Option Patch
  | .array items => items.mapM Operation.ofJson?
  | _ => none

/-- Why a text is no patch. -/
inductive PatchFault where
  /-- it is no document -/
  | text (fault : Fault)
  /-- it has not the form of a patch -/
  | shape
  deriving DecidableEq, Repr

namespace Patch

/-- A reader of documents as a reader of parts of a patch. -/
def lift {α : Type} (result : Except Fault α) : Except PatchFault α := result.mapError .text

/-- The names of operations. -/
def operationNames : List String := ["add", "remove", "replace", "move", "copy", "test"]

/-- Takes the name of an operation.  A container in its place is refused unread. -/
def readName (fuel : Nat) (s : List Char) : Except PatchFault (String × List Char) := do
  match Reader.skipBlanks s with
  | '"' :: s =>
    let (name, s) ← lift (Reader.string s)
    if name ∈ operationNames then .ok (name, s) else .error .shape
  | '[' :: _ | '\x7b' :: _ => .error .shape
  | s =>
    let _ ← lift (Reader.value fuel Reader.maxDepth s)
    .error .shape

/-- How deep a value inside an operation may be nested. -/
def innerDepth : Nat := Reader.maxDepth - 2

/-- Takes the entries of an operation that has some, and the brace that closes it.  A second or an
unknown name is refused where it stands. -/
def readEntries : Nat → Bool → List Char → Except PatchFault (List (String × Json) × List Char)
  | 0, _, _ => .error .shape
  | fuel + 1, named, s => do
    let (key, s) ← lift (Reader.key s)
    if named ∧ key = "op" then .error .shape
    else
      let (_, s) ← lift (Reader.colon s)
      let (v, s) ←
        if key = "op" then do
          let (name, s) ← readName fuel s
          .ok (Json.string name, s)
        else lift (Reader.value fuel innerDepth s)
      match Reader.skipBlanks s with
      | ',' :: s =>
        let (rest, s) ← readEntries fuel (named || key == "op") s
        .ok ((key, v) :: rest, s)
      | '\x7d' :: s => .ok ([(key, v)], s)
      | s => .error (.text (Reader.missing s))

/-- Takes the parts that follow the name of an operation in a list, and the bracket that closes
it. -/
def readParts (fuel : Nat) (s : List Char) : Except PatchFault (List Json × List Char) :=
  match Reader.skipBlanks s with
  | ',' :: s => lift (Reader.items fuel innerDepth s)
  | ']' :: s => .ok ([], s)
  | s => .error (.text (Reader.missing s))

/-- What was made of an operation that has been taken. -/
def settle (found : Option Operation) (s : List Char) : Except PatchFault (Operation × List Char) :=
  match found with
  | some op => .ok (op, s)
  | none => .error .shape

/-- Takes one operation. -/
def readOperation (fuel : Nat) (s : List Char) : Except PatchFault (Operation × List Char) := do
  match Reader.skipBlanks s with
  | '\x7b' :: s =>
    match Reader.skipBlanks s with
    | '\x7d' :: _ => .error .shape
    | s =>
      let (entries, s) ← readEntries fuel false s
      settle (Operation.ofEntries? entries) s
  | '[' :: s =>
    match Reader.skipBlanks s with
    | ']' :: _ => .error .shape
    | s =>
      let (name, s) ← readName fuel s
      let (parts, s) ← readParts fuel s
      settle (Operation.ofList? (.string name :: parts)) s
  | s =>
    let _ ← lift (Reader.value fuel Reader.maxDepth s)
    .error .shape

/-- Takes the operations of a list that is not empty, and the bracket that closes it. -/
def readOperations : Nat → List Char → Except PatchFault (Patch × List Char)
  | 0, _ => .error .shape
  | fuel + 1, s => do
    let (op, s) ← readOperation (fuel + 1) s
    match Reader.skipBlanks s with
    | ',' :: s =>
      let (rest, s) ← readOperations fuel s
      .ok (op :: rest, s)
    | ']' :: s => .ok ([op], s)
    | s => .error (.text (Reader.missing s))

/-- The patch at the beginning of a text; what follows it is not looked at, and of what is wrong
the first counts. -/
def readLeading (text : String) : Except PatchFault Patch := do
  let s := Reader.skipBlanks text.toList
  let fuel := Reader.fuelFor s
  match s with
  | '[' :: s =>
    match Reader.skipBlanks s with
    | ']' :: _ => .ok []
    | s =>
      let (patch, _) ← readOperations fuel s
      .ok patch
  | '\x7b' :: _ => .error .shape
  | s =>
    let _ ← lift (Reader.value fuel Reader.maxDepth s)
    .error .shape

end Patch

end JsonCollections.Json
