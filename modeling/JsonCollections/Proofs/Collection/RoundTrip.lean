import JsonCollections.Proofs.Collection.Ids

set_option autoImplicit false

/-!
# Storing and loading are inverse

Whatever items a collection has, loading the file that it is stored in gives the same items: in the
same order, with the same keys in the same order, and with every number in its form.  That holds for
items that repeat no key and are nested as deep as the reader has room for inside the array.
-/

namespace JsonCollections

namespace Location

variable {σ : Type} [Storage σ]

/-- The file behind a URL path is no directory by its spelling. -/
theorem asksDirectory_of_resolve {store : σ} {base : Path} {urlPath : String} {file : Path}
    (h : resolve store base urlPath = some file) : file.asksDirectory = false := by
  have hlast : ∀ (front : List String) (s : String), Path.innerComponent? s = some (.name s) →
      Path.asksDirectory ⟨front ++ [s]⟩ = false := by
    intro front s hs
    have hempty : s ≠ "" := by
      rintro rfl
      cases hs
    have hdot : s ≠ "." := by
      rintro rfl
      cases hs
    simp [Path.asksDirectory, hempty, hdot]
  rw [resolve_eq_some h]
  split
  · exact hlast _ _ innerComponent?_itemsFile
  · exact hlast _ _ (innerComponent?_fileSuffix _)

end Location

namespace Collection

/-- The last id is the greatest numeric id of the items, and there is none if no item has one. -/
def IsGreatestId (lastId : Option ItemId) (items : List Item) : Prop :=
  IdsUpTo lastId items ∧ ∀ n, lastId = some n → ∃ item ∈ items, item.numericId? = some n

theorem isGreatestId_greatestId (items : List Item) : IsGreatestId (greatestId items) items :=
  ⟨idsUpTo_greatestId items, fun _ => exists_of_greatestId⟩

variable {σ : Type} [Storage σ]

/-- A collection that was stored is loaded with the same items under every URL path that leads to
its file, and its last id is the greatest numeric id of the items. -/
theorem load_of_storeIn [Storage.ReadsBack σ] {store store' : σ} {library : Library}
    {urlPath : String} {c : Collection} (hitems : AreWellFormed c.items)
    (hreadable : AreReadable c.items) (hstore : c.storeIn store = (store', .ok ()))
    (hresolve : Location.resolve store' library.base urlPath = some c.filePath) :
    ∃ d, load store' library urlPath = .ok d ∧ d.items = c.items ∧ d.filePath = c.filePath ∧
      IsGreatestId d.lastId c.items := by
  have hread : Storage.read store' c.filePath = .ok (textOfItems c.items) :=
    Storage.ReadsBack.read_of_write (Location.asksDirectory_of_resolve hresolve) hstore
  exact ⟨_, load_eq_of_text hresolve hread hitems hreadable, rfl, rfl,
    isGreatestId_greatestId c.items⟩

/-! ## Items of all kinds -/

/-- Numbers at the bounds of both forms, two zeros and a one that are doubles, a text with characters
that are escaped and some that are not, and empty brackets. -/
def oddItems : List Item :=
  [[("id", .string " 12 "), ("most", .number (.ofNat 18446744073709551615)),
      ("least", .number (.integer (-9223372036854775808) (by decide))),
      ("zero", .number (.double (.zero true))), ("also zero", .number (.double (.zero false)))],
    [("one", .number (.ofNat 1)), ("\x00 key", .number (.double ((Double.ofInt? 1).getD default))),
      ("id", .number (.double ((Double.ofInt? 9223372036854775808).getD default)))],
    [("é\n\"\\😀", .array [.object [], .array [], .null, .object [("a", .bool true)]])]]

/-- A collection of these items, whose file is not there yet. -/
def oddCollection : Collection where
  filePath := .ofText "data/api/odd.json"
  urlPath := "/api/odd"
  lastId := none
  maxItems := 2
  items := oddItems

theorem wellFormed_oddItems : AreWellFormed oddItems := by
  intro item hitem
  simp only [oddItems, List.mem_cons, List.not_mem_nil, or_false] at hitem
  rcases hitem with rfl | rfl | rfl
  · exact ⟨by decide, trivial, trivial, trivial, trivial, trivial, trivial⟩
  · exact ⟨by decide, trivial, trivial, trivial, trivial⟩
  · exact ⟨by decide, ⟨⟨by decide, trivial⟩, trivial, trivial, ⟨by decide, trivial, trivial⟩,
      trivial⟩, trivial⟩

/-- They are loaded as they are. -/
theorem load_of_storeIn_oddItems :
    AreReadable oddItems ∧ ∃ d, load (oddCollection.storeIn ({} : Memory)).1 sampleLibrary
      "/api/odd" = .ok d ∧ d.items = oddItems ∧ d.filePath = oddCollection.filePath ∧
        IsGreatestId d.lastId oddItems := by
  have hreadable : AreReadable oddItems := by decide +kernel
  have hstore : oddCollection.storeIn ({} : Memory) =
      ((oddCollection.storeIn ({} : Memory)).1, .ok ()) := rfl
  have hresolve : Location.resolve (oddCollection.storeIn ({} : Memory)).1 sampleLibrary.base
      "/api/odd" = some oddCollection.filePath := by decide +kernel
  exact ⟨hreadable, load_of_storeIn wellFormed_oddItems hreadable hstore hresolve⟩

end Collection

end JsonCollections
