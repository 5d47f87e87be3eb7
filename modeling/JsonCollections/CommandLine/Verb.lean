import JsonCollections.CommandLine.Help

set_option autoImplicit false

/-!
# Command line: verbs

Three verbs name what can be asked for, each with a grammar of its own.  A fourth, `help`, takes
one of the others or itself and asks for its page.
-/

namespace JsonCollections.CommandLine

/-- The kinds of commands. -/
inductive Verb where
  | discover
  | check
  | query
  deriving DecidableEq, Repr

namespace Verb

/-- The verbs in the order of the help page. -/
def all : List Verb := [.discover, .check, .query]

/-- The name of a verb. -/
def name : Verb → String
  | .discover => "discover"
  | .check => "check"
  | .query => "query"

/-- The verb of this name. -/
def ofName? (name : String) : Option Verb := all.find? (·.name == name)

/-- What a verb does. -/
def about : Verb → String
  | .discover => "Print the collections found under BASE/api"
  | .check => "Load every collection and report item counts or load errors"
  | .query => "Run a query string against one collection"

/-- The directory that holds the collections. -/
def baseParameter : Parameter := { name := "base", judge := judgePath }

/-- The URL path of a collection. -/
def urlPathParameter : Parameter := { name := "url-path" }

/-- The query string. -/
def queryParameter : Parameter := { name := "params", fallback := some "" }

/-- What a verb takes. -/
def grammar : Verb → Grammar
  | .discover | .check => ⟨[], [baseParameter]⟩
  | .query => ⟨[queryParameter], [baseParameter, urlPathParameter]⟩

/-- The help page of a verb. -/
def page (verb : Verb) : Page := verb.grammar.page ("jsondir " ++ verb.name) verb.about

end Verb

/-! ## Help -/

/-- What the verb `help` does. -/
def helpAbout : String := "Print this message or the help of the given subcommand(s)"

/-- The page of the program. -/
def programPage : Page where
  about := "jsondir admin CLI"
  usage := "jsondir <COMMAND>"
  sections :=
    [⟨"Commands", (Verb.all.map fun verb => (verb.name, verb.about)) ++ [("help", helpAbout)]⟩,
      ⟨"Options", [helpRow]⟩]

/-- The page of the verb `help`. -/
def helpPage : Page where
  about := helpAbout
  usage := "jsondir help [COMMAND]..."
  sections := [⟨"Arguments", [("[COMMAND]...", "Print help for the subcommand(s)")]⟩]

/-- The page that the arguments of `help` ask for. -/
def pageOn : List String → Except ArgumentFault Page
  | [] => .ok programPage
  | ["help"] => .ok helpPage
  | [name] =>
    match Verb.ofName? name with
    | some verb => .ok verb.page
    | none => .error .unknown
  | _ => .error .unknown

end JsonCollections.CommandLine
