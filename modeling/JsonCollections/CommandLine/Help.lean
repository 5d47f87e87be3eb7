import JsonCollections.CommandLine.Arguments

set_option autoImplicit false

/-!
# Command line: help pages

A page says what a program does and how it is called, and lists what it takes in sections.  All
notes of a section begin two blanks to the right of its longest label.
-/

namespace JsonCollections.CommandLine

/-! ## Pages -/

/-- A titled list of labels with notes. -/
structure Section where
  title : String
  rows : List (String × String)
  deriving DecidableEq, Repr

/-- A help page. -/
structure Page where
  about : String
  usage : String
  sections : List Section
  deriving DecidableEq, Repr

/-- A label filled up with blanks. -/
def padded (label : String) (width : Nat) : String :=
  label ++ String.ofList (List.replicate (width - label.length) ' ')

/-- The lines of a section. -/
def Section.lines (s : Section) : List String :=
  let width := (s.rows.map fun row => row.1.length).foldl max 0
  (s.title ++ ":") :: s.rows.map fun row => "  " ++ padded row.1 width ++ "  " ++ row.2

/-- The text of a page: its parts with empty lines between them. -/
def Page.text (page : Page) : String :=
  let sections := page.sections.map fun s => "\n".intercalate s.lines
  "\n\n".intercalate ([page.about, "Usage: " ++ page.usage] ++ sections) ++ "\n"

/-! ## Pages of grammars -/

namespace Parameter

/-- The value as it is named in help. -/
def placeholder (p : Parameter) : String :=
  let name := p.name.toList.map fun c => if c = '-' then '_' else c.toUpper
  "<" ++ String.ofList name ++ ">"

/-- The option as it is labelled in help; long names are aligned, with or without a letter. -/
def optionLabel (p : Parameter) : String :=
  let letter :=
    match p.short with
    | some c => "-" ++ c.toString ++ ", "
    | none => "    "
  letter ++ "--" ++ p.name ++ " " ++ p.placeholder

/-- What help says about a value that may be left out. -/
def note (p : Parameter) : String :=
  match p.fallback with
  | some value => "[default: " ++ value ++ "]"
  | none => ""

end Parameter

/-- The row of the option that asks for help. -/
def helpRow : String × String := ("-h, --help", "Print help")

/-- The page of a program that takes the arguments of a grammar. -/
def Grammar.page (g : Grammar) (program about : String) : Page where
  about
  usage :=
    let options := if g.options.isEmpty then [] else ["[OPTIONS]"]
    " ".intercalate ([program] ++ options ++ g.positionals.map Parameter.placeholder)
  sections :=
    let options := g.options.map fun p => (p.optionLabel, p.note)
    [⟨"Arguments", g.positionals.map fun p => (p.placeholder, p.note)⟩,
      ⟨"Options", options ++ [helpRow]⟩]

end JsonCollections.CommandLine
