set_option autoImplicit false

/-!
# Paths

A path is kept as it is spelled, cut at the slashes.  What it leads to depends on its components
only: empty segments and inner dots do not count, so two spellings lead to the same place exactly
when `sameAs` holds.
-/

namespace JsonCollections

/-- A path as it is spelled: the segments between slashes. -/
structure Path where
  segments : List String
  deriving DecidableEq, Repr, Inhabited

/-- A part of a path that counts. -/
inductive Component where
  /-- the slash at the beginning -/
  | root
  /-- a dot at the beginning -/
  | here
  /-- two dots -/
  | up
  | name (s : String)
  deriving DecidableEq, Repr

namespace Path

/-! ## Text -/

/-- The path spelled by a text. -/
def ofChars (s : List Char) : Path := ⟨(s.splitOn '/').map String.ofList⟩

/-- The path spelled by a text. -/
def ofText (s : String) : Path := ofChars s.toList

/-- The text of the path. -/
def text (p : Path) : String := String.ofList (['/'].intercalate (p.segments.map String.toList))

/-! ## Components -/

/-- The component of a segment that is not the first one. -/
def innerComponent? (s : String) : Option Component :=
  if s = "" ∨ s = "." then none else if s = ".." then some .up else some (.name s)

/-- The components in order. -/
def components (p : Path) : List Component :=
  match p.segments with
  | "" :: s :: rest => .root :: (s :: rest).filterMap innerComponent?
  | "." :: rest => .here :: rest.filterMap innerComponent?
  | segments => segments.filterMap innerComponent?

/-- Both paths lead to the same place. -/
def sameAs (p q : Path) : Bool := p.components == q.components

theorem sameAs_iff (p q : Path) : p.sameAs q = true ↔ p.components = q.components := by
  simp [sameAs]

/-- The second path leads to a place strictly below the first. -/
def isAbove (p q : Path) : Bool := !p.sameAs q && p.components.isPrefixOf q.components

/-- The names of the path, where two dots take back the name before them. -/
def names (p : Path) : List String :=
  let follow (place : List String) : Component → List String
    | .name s => place ++ [s]
    | .up => place.dropLast
    | .root | .here => place
  p.components.foldl follow []

/-- The path ends in a slash or in a dot, which only a directory can come before. -/
def asksDirectory (p : Path) : Bool :=
  p.segments.getLast? == some "" || p.segments.getLast? == some "."

/-! ## Longer paths -/

/-- The second path read from the place of the first. -/
def join (p q : Path) : Path :=
  ⟨(if p.segments.getLast? = some "" then p.segments.dropLast else p.segments) ++ q.segments⟩

/-- The place of a name inside the place of the path. -/
def child (p : Path) (name : String) : Path := p.join ⟨[name]⟩

/-- The place that names lead to from the place of the path. -/
def descend (p : Path) (names : List String) : Path := names.foldl child p

/-- The name that the path ends in. -/
def fileName? (p : Path) : Option String :=
  match p.components.getLast? with
  | some (.name s) => some s
  | _ => none

/-- The segments up to the last one that counts; the first one stays. -/
def trimEnd : List String → List String
  | [] => []
  | first :: rest =>
    first :: (rest.reverse.dropWhile fun s => (innerComponent? s).isNone).reverse

/-- The path with another name in the place of its last one. -/
def withName (p : Path) (name : String) : Path :=
  ⟨trimEnd (trimEnd p.segments).dropLast ++ [name]⟩

/-- The path with more text at its end. -/
def withSuffix (p : Path) (suffix : String) : Path :=
  ⟨p.segments.dropLast ++ [(p.segments.getLast?.getD "") ++ suffix]⟩

end Path

end JsonCollections
