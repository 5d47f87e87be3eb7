import JsonCollections.Proofs.Collection.Renewed
import JsonCollections.Proofs.Collection.Stored
import JsonCollections.Proofs.Storage.Faults

set_option autoImplicit false

/-!
# How loading from a disk ends

What a URL path is loaded as goes by what is on the disk at its file: `load_eq_iff` has one case for
each way in which it can end.  Where nothing is there the collection is not found, unless a file is
in the way, under which nothing can be: then loading ends as if the file could not be read
(`not_notFound_of_absent`).
-/

namespace JsonCollections

namespace Json

theorem objects?_eq_some_iff {document : Json} {items : List Item} :
    document.objects? = some items ↔ document = .array (items.map .object) := by
  cases document with
  | array documents => exact mapM_fields?_eq_some.trans (Json.array.injEq _ _ ▸ Iff.rfl)
  | null | bool _ | number _ | string _ | object _ => exact ⟨nofun, nofun⟩

end Json

namespace Disk

/-- The file at a path holds a text. -/
def HoldsText (disk : Disk) (p : Path) (text : String) : Prop :=
  ∃ content, disk.find p = .ok (.file content) ∧ String.fromUTF8? content = some text

/-- What is at a path cannot be read as a text: it is a directory, or not written as one. -/
inductive Unreadable (disk : Disk) (p : Path) : Prop where
  | directory {entries : List (String × Node)} (h : disk.find p = .ok (.directory entries))
  | notText {content : ByteArray} (h : disk.find p = .ok (.file content))
      (htext : String.fromUTF8? content = none)

variable {disk : Disk} {p : Path}

theorem HoldsText.read {text : String} (h : disk.HoldsText p text) :
    Storage.read disk p = .ok text := by
  obtain ⟨content, hfind, htext⟩ := h
  simp only [Storage.read, readText, hfind, htext]

theorem Unreadable.read (h : disk.Unreadable p) : Storage.read disk p = .error .unreadable := by
  cases h with
  | directory hfind => simp only [Storage.read, readText, hfind]
  | notText hfind htext => simp only [Storage.read, readText, hfind, htext]

/-- What is at a path holds a text or cannot be read. -/
theorem holdsText_or_unreadable {node : Node} (h : disk.find p = .ok node) :
    (∃ text, disk.HoldsText p text) ∨ disk.Unreadable p := by
  cases node with
  | directory entries => exact .inr (.directory h)
  | file content =>
    cases htext : String.fromUTF8? content with
    | none => exact .inr (.notText h htext)
    | some text => exact .inl ⟨text, content, h, htext⟩

section

variable (hstart : disk.root.look disk.start = some none) (hp : p.WithinLimits)
  (hasks : p.asksDirectory = false)

include hstart hp hasks

theorem read_of_obstructed (h : disk.Obstructed p) :
    Storage.read disk p = .error .unreadable := by
  simp only [Storage.read, readText, find_of_obstructed hstart hp hasks h]

/-- A path that leads to nothing, and not because a file is in the way, has no file. -/
theorem read_of_absent (hnone : ∀ node, disk.find p ≠ .ok node) (hfree : ¬ disk.Obstructed p) :
    Storage.read disk p = .error .missing := by
  cases hfind : disk.find p with
  | ok node => exact absurd hfind (hnone node)
  | error fault =>
    rcases find_eq_error hstart hp hasks hfind with rfl | ⟨-, hobstructed⟩
    · simp only [Storage.read, readText, hfind]
    · exact absurd hobstructed hfree

end

end Disk

namespace Collection

/-- How loading a URL path ends, by what is on the disk. -/
inductive Ended (disk : Disk) (library : Library) (urlPath : String) :
    Except LoadError Collection → Prop where
  /-- the URL path leads to no file -/
  | nowhere (hresolve : Location.resolve disk library.base urlPath = none) :
      Ended disk library urlPath (.error .notFound)
  /-- nothing is there -/
  | absent {file : Path} (hresolve : Location.resolve disk library.base urlPath = some file)
      (hnone : ∀ node, disk.find file ≠ .ok node) (hfree : ¬ disk.Obstructed file) :
      Ended disk library urlPath (.error .notFound)
  /-- nothing is there since a file is in the way -/
  | obstructed {file : Path} (hresolve : Location.resolve disk library.base urlPath = some file)
      (hfile : disk.Obstructed file) : Ended disk library urlPath (.error .unreadable)
  /-- what is there holds no text -/
  | unreadable {file : Path} (hresolve : Location.resolve disk library.base urlPath = some file)
      (hfile : disk.Unreadable file) : Ended disk library urlPath (.error .unreadable)
  /-- the text is no document -/
  | notJson {file : Path} {text : String} {fault : Json.Fault}
      (hresolve : Location.resolve disk library.base urlPath = some file)
      (htext : disk.HoldsText file text) (hread : Json.read text = .error fault) :
      Ended disk library urlPath (.error (.notJson fault))
  /-- the document is no array of objects only -/
  | notObjects {file : Path} {text : String} {document : Json}
      (hresolve : Location.resolve disk library.base urlPath = some file)
      (htext : disk.HoldsText file text) (hread : Json.read text = .ok document)
      (hobjects : ∀ items : List Item, document ≠ .array (items.map .object)) :
      Ended disk library urlPath (.error .notObjects)
  /-- the document is an array of objects, and they are the items -/
  | loaded {file : Path} {text : String} {items : List Item} {lastId : Option ItemId}
      (hresolve : Location.resolve disk library.base urlPath = some file)
      (htext : disk.HoldsText file text)
      (hread : Json.read text = .ok (.array (items.map .object)))
      (hlast : IsGreatestId lastId items) :
      Ended disk library urlPath
        (.ok { filePath := file, urlPath, lastId, maxItems := library.maxItems, items })

section

variable {σ : Type} [Storage σ] {store : σ} {library : Library} {urlPath : String} {file : Path}

theorem load_of_resolve_none (h : Location.resolve store library.base urlPath = none) :
    load store library urlPath = .error .notFound := by
  simp only [load, h]

theorem load_of_read_error (hresolve : Location.resolve store library.base urlPath = some file)
    {fault : ReadFault} (hread : Storage.read store file = .error fault) :
    load store library urlPath = .error (.ofReadFault fault) := by
  simp only [load, hresolve, hread]

theorem load_of_read_ok (hresolve : Location.resolve store library.base urlPath = some file)
    {text : String} (hread : Storage.read store file = .ok text) :
    load store library urlPath = (itemsOfText text).map fun items =>
      { filePath := file, urlPath, lastId := greatestId items, maxItems := library.maxItems,
        items } := by
  simp only [load, hresolve, hread]
  cases itemsOfText text <;> rfl

end

/-- A text is read as items, is no document, or is a document of another kind. -/
theorem itemsOfText_cases (text : String) :
    (∃ fault, Json.read text = .error fault ∧ itemsOfText text = .error (.notJson fault)) ∨
      (∃ document, Json.read text = .ok document ∧
        (∀ items : List Item, document ≠ .array (items.map .object)) ∧
          itemsOfText text = .error .notObjects) ∨
      ∃ items : List Item, Json.read text = .ok (.array (items.map .object)) ∧
        itemsOfText text = .ok items := by
  unfold itemsOfText
  cases Json.read text with
  | error fault => exact .inl ⟨fault, rfl, rfl⟩
  | ok document =>
    refine .inr ?_
    simp only
    cases hobjects : document.objects? with
    | none =>
      refine .inl ⟨document, rfl, fun items heq => ?_, rfl⟩
      rw [Json.objects?_eq_some_iff.mpr heq] at hobjects
      cases hobjects
    | some items =>
      exact .inr ⟨items, congrArg Except.ok (Json.objects?_eq_some_iff.mp hobjects), rfl⟩

variable {disk : Disk} {library : Library} {urlPath : String}

/-- Loading ends in one of these ways. -/
theorem ended_load (hstart : disk.root.look disk.start = some none)
    (hlimits : ∀ file, Location.resolve disk library.base urlPath = some file →
      file.WithinLimits) :
    Ended disk library urlPath (load disk library urlPath) := by
  cases hresolve : Location.resolve disk library.base urlPath with
  | none =>
    rw [load_of_resolve_none hresolve]
    exact .nowhere hresolve
  | some file =>
    have hp := hlimits file hresolve
    have hasks := Location.asksDirectory_of_resolve hresolve
    by_cases hobstructed : disk.Obstructed file
    · rw [load_of_read_error hresolve (Disk.read_of_obstructed hstart hp hasks hobstructed)]
      exact .obstructed hresolve hobstructed
    by_cases hnone : ∀ node, disk.find file ≠ .ok node
    · rw [load_of_read_error hresolve (Disk.read_of_absent hstart hp hasks hnone hobstructed)]
      exact .absent hresolve hnone hobstructed
    obtain ⟨node, hfind⟩ := not_forall_not.mp hnone
    rcases Disk.holdsText_or_unreadable hfind with ⟨text, htext⟩ | hunreadable
    · rw [load_of_read_ok hresolve htext.read]
      rcases itemsOfText_cases text with ⟨fault, hread, hitems⟩ |
        ⟨document, hread, hobjects, hitems⟩ | ⟨items, hread, hitems⟩
      · rw [hitems]
        exact .notJson hresolve htext hread
      · rw [hitems]
        exact .notObjects hresolve htext hread hobjects
      · rw [hitems]
        exact .loaded hresolve htext hread (isGreatestId_greatestId items)
    · rw [load_of_read_error hresolve hunreadable.read]
      exact .unreadable hresolve hunreadable

/-- Only one of these ways is open. -/
theorem load_of_ended (hstart : disk.root.look disk.start = some none)
    (hlimits : ∀ file, Location.resolve disk library.base urlPath = some file →
      file.WithinLimits) {result : Except LoadError Collection}
    (h : Ended disk library urlPath result) : load disk library urlPath = result := by
  cases h with
  | nowhere hresolve => exact load_of_resolve_none hresolve
  | absent hresolve hnone hfree =>
    exact load_of_read_error hresolve (Disk.read_of_absent hstart (hlimits _ hresolve)
      (Location.asksDirectory_of_resolve hresolve) hnone hfree)
  | obstructed hresolve hfile =>
    exact load_of_read_error hresolve (Disk.read_of_obstructed hstart (hlimits _ hresolve)
      (Location.asksDirectory_of_resolve hresolve) hfile)
  | unreadable hresolve hfile => exact load_of_read_error hresolve hfile.read
  | notJson hresolve htext hread =>
    rw [load_of_read_ok hresolve htext.read, itemsOfText, hread]
    rfl
  | notObjects hresolve htext hread hobjects =>
    rename_i file text document
    have hnone : document.objects? = none := by
      refine Option.eq_none_iff_forall_ne_some.mpr fun items hitems => ?_
      exact hobjects items (Json.objects?_eq_some_iff.mp hitems)
    rw [load_of_read_ok hresolve htext.read, itemsOfText, hread]
    simp only [hnone]
    rfl
  | loaded hresolve htext hread hlast =>
    rw [load_of_read_ok hresolve htext.read, itemsOfText, hread, hlast.eq]
    simp only [Json.objects?_eq_some_iff.mpr rfl]
    rfl

theorem load_eq_iff (hstart : disk.root.look disk.start = some none)
    (hlimits : ∀ file, Location.resolve disk library.base urlPath = some file →
      file.WithinLimits) {result : Except LoadError Collection} :
    load disk library urlPath = result ↔ Ended disk library urlPath result :=
  ⟨fun h => h ▸ ended_load hstart hlimits, load_of_ended hstart hlimits⟩

/-! ## A file in the way -/

/-- A file, and no directory of its name. -/
def drawer : Disk where
  root := .directory [("data", .directory [("api", .directory [("notes.json", .file .empty)])])]

theorem resolve_drawer : Location.resolve drawer (.ofText "data") "/api/notes.json/old" =
    some (.ofText "data/api/notes.json/old.json") := by
  decide +kernel

theorem obstructed_drawer : drawer.Obstructed (.ofText "data/api/notes.json/old.json") :=
  ⟨[.name "data", .name "api", .name "notes.json"], [.name "old.json"], rfl, List.cons_ne_nil _ _,
    ["data", "api", "notes.json"], .empty, rfl, rfl⟩

theorem withinLimits_drawer {file : Path}
    (h : Location.resolve drawer (.ofText "data") "/api/notes.json/old" = some file) :
    file.WithinLimits := by
  obtain rfl := Option.some.inj (resolve_drawer.symm.trans h)
  decide

theorem load_eq_iff_drawer : drawer.root.look drawer.start = some none ∧
    (∀ file, Location.resolve drawer (.ofText "data") "/api/notes.json/old" = some file →
      file.WithinLimits) ∧
    load drawer { base := .ofText "data" } "/api/notes.json/old" = .error .unreadable :=
  ⟨rfl, fun _ => withinLimits_drawer, (load_eq_iff rfl fun _ => withinLimits_drawer).mpr
    (.obstructed resolve_drawer obstructed_drawer)⟩

/-- Where nothing is there a collection need not be reported as not found. -/
theorem not_notFound_of_absent : ¬ ∀ (disk : Disk) (library : Library) (urlPath : String),
    disk.root.WellFormed → disk.root.look disk.start = some none →
    (∀ file, Location.resolve disk library.base urlPath = some file → file.WithinLimits) →
    (load disk library urlPath = .error .notFound ↔
      Location.resolve disk library.base urlPath = none ∨
        ∃ file, Location.resolve disk library.base urlPath = some file ∧
          ∀ node, disk.find file ≠ .ok node) := by
  intro h
  have hnotFound := (h drawer { base := .ofText "data" } "/api/notes.json/old" (by decide) rfl
    fun _ => withinLimits_drawer).mpr (.inr ⟨_, resolve_drawer, fun node hfind => ?_⟩)
  · rw [load_of_read_error resolve_drawer rfl] at hnotFound
    cases hnotFound
  · have hnothing : drawer.find (.ofText "data/api/notes.json/old.json") =
        .error .notDirectory := rfl
    rw [hfind] at hnothing
    cases hnothing

end Collection

end JsonCollections
