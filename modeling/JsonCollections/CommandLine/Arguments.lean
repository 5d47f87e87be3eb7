import JsonCollections.Entries

set_option autoImplicit false

/-!
# Command line: arguments

Arguments are options with a value and positional values.  A value is given after `=`, directly
after the letter of a short option, or as the next argument; after `--` all is positional.  A value
is judged when the next option or positional value begins, one that is attached at once.
-/

namespace JsonCollections.CommandLine

/-- Why arguments are refused. -/
inductive ArgumentFault where
  /-- a value is not of the kind that is asked for -/
  | badValue
  /-- there is no such option, or no place for a positional value -/
  | unknown
  /-- an option or a path has no value -/
  | noValue
  /-- an option is given twice -/
  | repeated
  /-- an option that takes no value has one -/
  | extraValue
  /-- a positional value is missing -/
  | incomplete
  /-- help is asked for -/
  | help
  deriving DecidableEq, Repr

/-- An option or a positional value: its names, what stands for it if it is left out, and what it
takes. -/
structure Parameter where
  name : String
  short : Option Char := none
  fallback : Option String := none
  judge : String → Except ArgumentFault Unit := fun _ => .ok ()

/-- A path is not empty. -/
def judgePath (s : String) : Except ArgumentFault Unit :=
  if s = "" then .error .noValue else .ok ()

/-- What a program takes. -/
structure Grammar where
  options : List Parameter
  positionals : List Parameter

namespace Grammar

/-- The option with a long name. -/
def long? (g : Grammar) (name : String) : Option Parameter := g.options.find? (·.name == name)

/-- The option with a letter. -/
def short? (g : Grammar) (letter : Char) : Option Parameter :=
  g.options.find? (·.short == some letter)

end Grammar

/-- What has been read: values, a parameter whose value is still to be judged, the positional
places left, and whether all that follows is positional. -/
structure Reading where
  values : Entries String := []
  pending : Option (Parameter × Option String) := none
  places : List Parameter
  literal : Bool := false

namespace Reading

/-- Takes a value of a parameter. -/
def accept (r : Reading) (p : Parameter) (value : Option String) :
    Except ArgumentFault Reading :=
  match value with
  | none => .error .noValue
  | some v =>
    if (r.values.get? p.name).isSome then .error .repeated
    else do
      p.judge v
      .ok { r with values := r.values.insert p.name v }

/-- Judges what is pending. -/
def settle (r : Reading) : Except ArgumentFault Reading :=
  match r.pending with
  | none => .ok r
  | some (p, value) => accept { r with pending := none } p value

/-- Begins an option, with an attached value or without. -/
def option (r : Reading) (p : Parameter) (attached : Option String) :
    Except ArgumentFault Reading := do
  let r ← r.settle
  match attached with
  | some v => r.accept p (some v)
  | none => .ok { r with pending := some (p, none) }

/-- Takes a positional value. -/
def positional (r : Reading) (value : String) : Except ArgumentFault Reading :=
  match r.places with
  | [] => .error .unknown
  | p :: rest => do
    let r ← r.settle
    .ok { r with pending := some (p, some value), places := rest }

/-- Asks for help. -/
def help (r : Reading) : Except ArgumentFault Reading := do
  let _ ← r.settle
  .error .help

/-- Takes an argument that begins with two hyphens. -/
def longOption (g : Grammar) (r : Reading) (body : List Char) : Except ArgumentFault Reading :=
  let name := String.ofList (body.takeWhile (· ≠ '='))
  let attached :=
    match body.dropWhile (· ≠ '=') with
    | _ :: value => some (String.ofList value)
    | [] => none
  match name, g.long? name, attached with
  | "help", _, none => r.help
  | "help", _, some _ => .error .extraValue
  | _, some p, attached => r.option p attached
  | _, none, _ => .error .unknown

/-- Takes an argument that begins with one hyphen. -/
def shortOption (g : Grammar) (r : Reading) (letter : Char) (rest : List Char) :
    Except ArgumentFault Reading :=
  match letter, g.short? letter with
  | 'h', _ => r.help
  | _, some p =>
    match rest with
    | [] => r.option p none
    | '=' :: value => r.option p (some (String.ofList value))
    | value => r.option p (some (String.ofList value))
  | _, none => .error .unknown

/-- Takes an argument that is no option. -/
def plain (r : Reading) (argument : String) : Except ArgumentFault Reading :=
  match r.pending, r.literal with
  | some (p, none), false => .ok { r with pending := some (p, some argument) }
  | _, _ => r.positional argument

/-- Takes one argument. -/
def next (g : Grammar) (r : Reading) (argument : String) : Except ArgumentFault Reading :=
  if r.literal then r.plain argument
  else
    match argument.toList with
    | ['-', '-'] => .ok { r with literal := true }
    | '-' :: '-' :: body => r.longOption g body
    | '-' :: letter :: rest => r.shortOption g letter rest
    | _ => r.plain argument

end Reading

/-- The values that arguments give; positional values may be missing. -/
def Grammar.read (g : Grammar) (arguments : List String) :
    Except ArgumentFault (Entries String) := do
  let r ← arguments.foldlM (Reading.next g) { places := g.positionals }
  let r ← r.settle
  .ok r.values

/-- The values that arguments give, all positional ones among them. -/
def Grammar.readAll (g : Grammar) (arguments : List String) :
    Except ArgumentFault (Entries String) := do
  let values ← g.read arguments
  if g.positionals.all fun p => (values.get? p.name).isSome then .ok values
  else .error .incomplete

end JsonCollections.CommandLine
