import JsonCollections.Collection.Basic
import JsonCollections.Collection.Listing
import JsonCollections.CommandLine.Verb
import JsonCollections.Query.Parameters

set_option autoImplicit false

/-!
# Command line: looking after collections

A command lists the collections of a base directory, loads each of them and reports, or runs a
query on one.  Reports are documents with one item a line.
-/

namespace JsonCollections.CommandLine

/-- What is asked for. -/
inductive Command where
  | discover (base : String)
  | check (base : String)
  | query (base urlPath parameters : String)
  deriving DecidableEq, Repr

/-- What arguments ask for. -/
inductive Task where
  /-- to read a help page -/
  | explain (page : Page)
  /-- to run a command -/
  | run (command : Command)
  deriving DecidableEq, Repr

/-- Why a command fails. -/
inductive CommandError where
  /-- the base is no directory -/
  | noBase (base : String)
  | query (error : QueryError)
  | load (error : LoadError)
  deriving DecidableEq, Repr

/-- The text for people. -/
def CommandError.message : CommandError → String
  | .noBase base => "base directory " ++ base ++ " does not exist"
  | .query error => error.message
  | .load error => error.message

/-- How a run of the program ends. -/
structure Outcome where
  exit : Nat
  output : String := ""
  error : Option String := none
  deriving DecidableEq, Repr

namespace Command

/-! ## Reading -/

/-- The command of a verb with the values that are given. -/
def ofValues (verb : Verb) (values : Entries String) : Command :=
  let value (p : Parameter) : String := ((values.get? p.name).or p.fallback).getD ""
  match verb with
  | .discover => .discover (value Verb.baseParameter)
  | .check => .check (value Verb.baseParameter)
  | .query =>
    .query (value Verb.baseParameter) (value Verb.urlPathParameter) (value Verb.queryParameter)

end Command

namespace Task

/-- The task of a verb with its arguments. -/
def ofVerb (verb : Verb) (arguments : List String) : Except ArgumentFault Task :=
  match verb.grammar.readAll arguments with
  | .ok values => .ok (.run (.ofValues verb values))
  | .error .help => .ok (.explain verb.page)
  | .error fault => .error fault

/-- The task that arguments give. -/
def ofArguments : List String → Except ArgumentFault Task
  | [] => .error .incomplete
  | "help" :: rest => (pageOn rest).map .explain
  | first :: rest =>
    match Verb.ofName? first with
    | some verb => ofVerb verb rest
    | none =>
      if first = "--help" ∨ first.toList.take 2 = ['-', 'h'] then .ok (.explain programPage)
      else .error .unknown

end Task

namespace Command

/-! ## Running -/

/-- The base directory of a command. -/
def base : Command → String
  | .discover base | .check base | .query base _ _ => base

/-- How many levels below its base directory a command looks. -/
def levels : Command → Nat
  | .query _ urlPath _ => (Location.relative urlPath).segments.length + 1
  | _ => 3

variable {σ : Type} [Storage σ]

/-- The library in a base directory, if that is there. -/
def libraryAt (store : σ) (base : String) : Except CommandError Library :=
  let library : Library := { base := .ofText base }
  if Storage.isDirectory store library.base then .ok library else .error (.noBase base)

/-- The report on one listed collection, and whether it loads. -/
def checkOne (store : σ) (library : Library) (l : Listing) : Json × Bool :=
  match Collection.load store library l.urlPath with
  | .ok c =>
    (.object [("urlPath", .string l.urlPath), ("items", .number (.ofNat c.items.length)),
      ("lastId", (c.lastId.map fun k => Json.number (.ofNat k)).getD .null)], true)
  | .error e =>
    (.object [("urlPath", .string l.urlPath), ("error", .string e.code),
      ("message", .string e.message)], false)

/-- A report as it is printed. -/
def printed (items : List Json) : String := (Json.array items).indented ++ "\n"

/-- Runs a command: the exit code and what is printed. -/
def run (store : σ) : Command → Except CommandError (Nat × String)
  | .discover base => do
    let library ← libraryAt store base
    let found := Listing.discover store library.base
    .ok (0, printed (found.map fun l =>
      .object [("path", .string l.path.text), ("urlPath", .string l.urlPath)]))
  | .check base => do
    let library ← libraryAt store base
    let reports := (Listing.discover store library.base).map (checkOne store library)
    .ok (if reports.all (·.2) then 0 else 1, printed (reports.map (·.1)))
  | .query base urlPath parameters => do
    let q ← (Query.ofQueryString parameters).mapError .query
    let library ← libraryAt store base
    let c ← (Collection.load store library urlPath).mapError .load
    .ok (0, printed ((c.query q).map .object))

end Command

/-- Runs the program on arguments. -/
def runArguments {σ : Type} [Storage σ] (store : σ) (arguments : List String) : Outcome :=
  match Task.ofArguments arguments with
  | .ok (.explain page) => ⟨0, page.text, none⟩
  | .ok (.run command) =>
    match command.run store with
    | .ok (exit, output) => ⟨exit, output, none⟩
    | .error e => ⟨1, "", some e.message⟩
  | .error _ => ⟨2, "", none⟩

end JsonCollections.CommandLine
