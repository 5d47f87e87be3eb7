import JsonCollections.Collection.Listing
import JsonCollections.Proofs.Http.Targets
import JsonCollections.Proofs.Storage.Walk
import Mathlib.Data.List.Nodup

set_option autoImplicit false

/-!
# The collections that are listed

A file is listed exactly if the names that lead to it have one of two shapes
(`urlPath?_eq_some_iff`): the slashes of a path fall between its names, and the endings hold a dot,
which no name of a collection holds.  With what a walk finds this says which collections are listed
and in which order (`discovered`).
-/

namespace JsonCollections

namespace Listing

/-! ## The two shapes of files -/

/-- The URL path of a name. -/
def urlPathOf (name : String) : String := "/" ++ apiDirectory ++ "/" ++ name

theorem urlPathOf_eq (name : String) : urlPathOf name = "/api/" ++ name := by
  have hapi : "/" ++ apiDirectory ++ "/" = "/api/" := by decide
  rw [urlPathOf, hapi]

theorem isCollection_iff {ending : String} {file : List Char} :
    isCollection ending file = true ↔ ∃ name, IsName name ∧
      file = (apiDirectory ++ "/").toList ++ name.toList ++ ending.toList := by
  unfold isCollection
  simp only [Bool.and_eq_true, beq_iff_eq]
  constructor
  · rintro ⟨hfile, hname⟩
    obtain ⟨name, htake⟩ : ∃ name : String, name.toList =
        (file.drop (apiDirectory ++ "/").toList.length).take
          (file.length - (apiDirectory ++ "/").toList.length - ending.length) :=
      ⟨String.ofList _, String.toList_ofList⟩
    rw [← htake] at hfile hname
    exact ⟨name, isSegment_iff.mp hname, hfile.symm⟩
  · rintro ⟨name, hname, rfl⟩
    have hlength : ((apiDirectory ++ "/").toList ++ name.toList ++ ending.toList).length -
        (apiDirectory ++ "/").toList.length - ending.length = name.toList.length := by
      rw [List.length_append, List.length_append, String.length_toList (s := ending)]
      omega
    have hmiddle : (((apiDirectory ++ "/").toList ++ name.toList ++ ending.toList).drop
        (apiDirectory ++ "/").toList.length).take name.toList.length = name.toList := by
      rw [List.append_assoc, List.drop_left, List.take_left]
    rw [hlength, hmiddle]
    exact ⟨rfl, isSegment_iff.mpr hname⟩

/-- The files of one shape are those that lead through names of this shape. -/
theorem isCollection_spelled_iff {ending : String} {inside : String → List String}
    (hspelled : ∀ name, spelled (apiDirectory :: inside name) =
      (apiDirectory ++ "/").toList ++ name.toList ++ ending.toList)
    (hinside : ∀ name, IsName name → ∀ part ∈ inside name, '/' ∉ part.toList)
    {names : List String} (hnames : ∀ part ∈ names, '/' ∉ part.toList) :
    isCollection ending (spelled (apiDirectory :: names)) = true ↔
      ∃ name, IsName name ∧ names = inside name := by
  have hapi : '/' ∉ apiDirectory.toList := by decide
  rw [isCollection_iff]
  refine exists_congr fun name => and_congr_right fun hname => ?_
  rw [← hspelled]
  constructor
  · intro heq
    exact (List.cons.inj (Path.eq_of_intercalate_eq (List.forall_mem_cons.mpr ⟨hapi, hnames⟩)
      (List.forall_mem_cons.mpr ⟨hapi, hinside name hname⟩) (List.cons_ne_nil _ _)
      (List.cons_ne_nil _ _) heq)).2
  · rintro rfl
    rfl

theorem spelled_directory (name : String) : spelled [apiDirectory, name, Location.itemsFile] =
    (apiDirectory ++ "/").toList ++ name.toList ++ itemsSuffix.toList := by
  simp only [spelled, itemsSuffix, List.map_cons, List.map_nil, List.intercalate_cons_cons,
    List.intercalate_singleton, String.toList_append, List.append_assoc]
  rfl

theorem spelled_file (name : String) : spelled [apiDirectory, name ++ Location.fileSuffix] =
    (apiDirectory ++ "/").toList ++ name.toList ++ Location.fileSuffix.toList := by
  simp only [spelled, List.map_cons, List.map_nil, List.intercalate_cons_cons,
    List.intercalate_singleton, String.toList_append, List.append_assoc]
  rfl

theorem isCollection_directory_iff {names : List String}
    (hnames : ∀ part ∈ names, '/' ∉ part.toList) :
    isCollection itemsSuffix (spelled (apiDirectory :: names)) = true ↔
      ∃ name, IsName name ∧ names = [name, Location.itemsFile] := by
  refine @isCollection_spelled_iff itemsSuffix (fun name => [name, Location.itemsFile])
    spelled_directory (fun name hname => ?_) names hnames
  have hitems : '/' ∉ Location.itemsFile.toList := by decide
  exact List.forall_mem_cons.mpr ⟨hname.not_mem (.inl rfl), List.forall_mem_singleton.mpr hitems⟩

theorem isCollection_file_iff {names : List String}
    (hnames : ∀ part ∈ names, '/' ∉ part.toList) :
    isCollection Location.fileSuffix (spelled (apiDirectory :: names)) = true ↔
      ∃ name, IsName name ∧ names = [name ++ Location.fileSuffix] := by
  refine @isCollection_spelled_iff Location.fileSuffix (fun name => [name ++ Location.fileSuffix])
    spelled_file (fun name hname => ?_) names hnames
  have hsuffix : '/' ∉ Location.fileSuffix.toList := by decide
  rw [List.forall_mem_singleton, String.toList_append, List.mem_append, not_or]
  exact ⟨hname.not_mem (.inl rfl), hsuffix⟩

/-- The ending of a collection is not in the name before it, so it is taken away once. -/
theorem urlPathOfFile_eq {name : String} (hname : IsName name) {ending : String}
    (hending : '.' ∈ ending.toList) : urlPathOfFile ending
      ((apiDirectory ++ "/").toList ++ name.toList ++ ending.toList) = urlPathOf name := by
  have hne : ending.toList ≠ [] := List.ne_nil_of_mem hending
  have hdot : '.' ∉ (apiDirectory ++ "/").toList ++ name.toList := by
    rw [List.mem_append, not_or]
    exact ⟨by decide, hname.not_mem (.inr rfl)⟩
  have hsuffix : ¬ ending.toList <:+ (apiDirectory ++ "/").toList ++ name.toList :=
    fun h => hdot (h.subset hending)
  rw [urlPathOfFile, Text.trimEnd_append hne, Text.trimEnd_of_not_suffix hsuffix,
    String.ofList_append, String.ofList_toList, String.ofList_toList, urlPathOf]
  simp only [String.append_assoc]

/-- The listed files are those that one name leads to and those in the directory of a name. -/
theorem urlPath?_eq_some_iff {names : List String} (hnames : ∀ part ∈ names, '/' ∉ part.toList)
    {urlPath : String} : urlPath? (apiDirectory :: names) = some urlPath ↔
      ∃ name, IsName name ∧ urlPath = urlPathOf name ∧
        (names = [name, Location.itemsFile] ∨ names = [name ++ Location.fileSuffix]) := by
  rw [urlPath?]
  split
  · rename_i hdirectory
    obtain ⟨name, hname, rfl⟩ := (isCollection_directory_iff hnames).mp hdirectory
    rw [spelled_directory, urlPathOfFile_eq hname (by decide), Option.some_inj]
    constructor
    · rintro rfl
      exact ⟨name, hname, rfl, .inl rfl⟩
    · rintro ⟨other, -, rfl, heq | heq⟩
      · cases heq
        rfl
      · cases heq
  · rename_i hdirectory
    split
    · rename_i hfile
      obtain ⟨name, hname, rfl⟩ := (isCollection_file_iff hnames).mp hfile
      rw [spelled_file, urlPathOfFile_eq hname (by decide), Option.some_inj]
      constructor
      · rintro rfl
        exact ⟨name, hname, rfl, .inr rfl⟩
      · rintro ⟨other, -, rfl, heq | heq⟩
        · cases heq
        · have hsame := congrArg String.toList (List.cons.inj heq).1
          rw [String.toList_append, String.toList_append] at hsame
          rw [String.toList_inj.mp (List.append_cancel_right hsame)]
    · rename_i hfile
      refine ⟨nofun, ?_⟩
      rintro ⟨name, hname, -, heq | heq⟩
      · exact absurd ((isCollection_directory_iff hnames).mpr ⟨name, hname, heq⟩) hdirectory
      · exact absurd ((isCollection_file_iff hnames).mpr ⟨name, hname, heq⟩) hfile

/-! ## Listed collections -/

/-- The collection that is one file. -/
def ofFile (base : Path) (name : String) : Listing :=
  ⟨(base.child apiDirectory).child (name ++ Location.fileSuffix), urlPathOf name⟩

/-- The collection that is a directory. -/
def ofDirectory (base : Path) (name : String) : Listing :=
  ⟨((base.child apiDirectory).child name).child Location.itemsFile, urlPathOf name⟩

variable {disk : Disk} {base : Path}

theorem discover_of_not_isDirectory
    (h : Storage.isDirectory disk (base.child apiDirectory) = false) : discover disk base = [] :=
  if_neg (Bool.eq_false_iff.mp h)

/-- The listed collections are the files in the directory of collections that have a name and the
ending, and the files of items in the directories there that have a name. -/
theorem mem_discover_iff (hroot : disk.root.WellFormed) {l : Listing} :
    l ∈ discover disk base ↔ ∃ name, IsName name ∧
      (l = ofDirectory base name ∧
          disk.HasFile ((base.child apiDirectory).child name) Location.itemsFile ∨
        l = ofFile base name ∧
          disk.HasFile (base.child apiDirectory) (name ++ Location.fileSuffix)) := by
  cases hdirectory : Storage.isDirectory disk (base.child apiDirectory) with
  | false =>
    rw [discover_of_not_isDirectory hdirectory]
    refine ⟨nofun, ?_⟩
    have hnone : ¬ Storage.isDirectory disk (base.child apiDirectory) = true :=
      Bool.eq_false_iff.mp hdirectory
    rintro ⟨name, hname, ⟨-, hfile⟩ | ⟨-, hfile⟩⟩
    · exact absurd (Disk.isDirectory_of_child hname.innerComponent?
        (Disk.isDirectory_of_hasFile hfile)) hnone
    · exact absurd (Disk.isDirectory_of_hasFile hfile) hnone
  | true =>
    have hslash : ∀ names ∈ Storage.files disk (base.child apiDirectory),
        ∀ part ∈ names, '/' ∉ part.toList := fun names hnames part hpart =>
      Node.slash_not_mem_of_isName ((Disk.pairwise_files hroot _).2 names hnames part hpart)
    simp only [discover, hdirectory, if_true, List.mem_filterMap, Option.map_eq_some_iff]
    constructor
    · rintro ⟨names, hnames, urlPath, hurlPath, rfl⟩
      obtain ⟨name, hname, rfl, rfl | rfl⟩ :=
        (urlPath?_eq_some_iff (hslash names hnames)).mp hurlPath
      · exact ⟨name, hname, .inl ⟨rfl, (Disk.pair_mem_files_iff hroot hdirectory
          hname.innerComponent?).mp hnames⟩⟩
      · exact ⟨name, hname, .inr ⟨rfl, (Disk.singleton_mem_files_iff hroot hdirectory).mp hnames⟩⟩
    · rintro ⟨name, hname, ⟨rfl, hfile⟩ | ⟨rfl, hfile⟩⟩
      · have hnames := (Disk.pair_mem_files_iff hroot hdirectory hname.innerComponent?).mpr hfile
        exact ⟨_, hnames, _, (urlPath?_eq_some_iff (hslash _ hnames)).mpr
          ⟨name, hname, rfl, .inl rfl⟩, rfl⟩
      · have hnames := (Disk.singleton_mem_files_iff hroot hdirectory).mpr hfile
        exact ⟨_, hnames, _, (urlPath?_eq_some_iff (hslash _ hnames)).mpr
          ⟨name, hname, rfl, .inr rfl⟩, rfl⟩

/-- The listed paths are in strict order. -/
theorem pairwise_discover (hroot : disk.root.WellFormed) (base : Path) :
    (discover disk base).Pairwise fun a b => a.path.components < b.path.components := by
  unfold discover
  simp only
  split
  · obtain ⟨hsorted, hnames⟩ := Disk.pairwise_files hroot (base.child apiDirectory)
    have hcomponents : ∀ names ∈ Storage.files disk (base.child apiDirectory),
        ∀ name ∈ names, Path.innerComponent? name = some (.name name) :=
      fun names hmem name hname => Node.innerComponent?_of_isName (hnames names hmem name hname)
    refine List.pairwise_filterMap.mpr (hsorted.imp_of_mem fun {a b} ha hb hlt => ?_)
    intro l hl l' hl'
    obtain ⟨urlPath, -, rfl⟩ := Option.map_eq_some_iff.mp hl
    obtain ⟨urlPath', -, rfl⟩ := Option.map_eq_some_iff.mp hl'
    exact Path.components_descend_lt _ (hcomponents a ha) (hcomponents b hb) hlt
  · exact .nil

/-- No path is listed twice. -/
theorem nodup_path_discover (hroot : disk.root.WellFormed) (base : Path) :
    ((discover disk base).map Listing.path).Nodup := by
  refine List.pairwise_map.mpr ((pairwise_discover hroot base).imp fun {a b} hlt heq => ?_)
  rw [heq] at hlt
  exact List.lt_irrefl _ hlt

/-- The service takes the URL path of a name for that of a collection. -/
theorem ofText?_of_isName {name : String} (h : IsName name) :
    Http.Target.ofText? name = some (.collection (urlPathOf name)) := by
  rw [urlPathOf_eq, Http.Target.ofText?_eq_some_iff]
  exact .collection h.isRoute

/-- What is listed below a base directory. -/
structure Discovered (disk : Disk) (base : Path) : Prop where
  /-- every file `<name>.json` in the directory of collections and every file `items.json` in a
  directory `<name>` there, and nothing else -/
  mem_iff : ∀ l, l ∈ discover disk base ↔ ∃ name, IsName name ∧
    (l = ofDirectory base name ∧
        disk.HasFile ((base.child apiDirectory).child name) Location.itemsFile ∨
      l = ofFile base name ∧
        disk.HasFile (base.child apiDirectory) (name ++ Location.fileSuffix))
  /-- no file twice -/
  nodup : ((discover disk base).map Listing.path).Nodup
  /-- in the order of the paths -/
  ordered : ((discover disk base).map fun l => l.path.components).Pairwise (· < ·)
  /-- nothing without a directory of collections -/
  empty : Storage.isDirectory disk (base.child apiDirectory) = false → discover disk base = []
  /-- under URL paths that the service takes for those of collections -/
  routed : ∀ l ∈ discover disk base, ∃ path,
    l.urlPath = "/api/" ++ path ∧ Http.Target.ofText? path = some (.collection l.urlPath)

/-- The listed collections are those at the top, in order. -/
theorem discovered (disk : Disk) (hroot : disk.root.WellFormed) (base : Path) :
    Discovered disk base where
  mem_iff _ := mem_discover_iff hroot
  nodup := nodup_path_discover hroot base
  ordered := List.pairwise_map.mpr (pairwise_discover hroot base)
  empty := discover_of_not_isDirectory
  routed l hl := by
    obtain ⟨name, hname, ⟨rfl, -⟩ | ⟨rfl, -⟩⟩ := (mem_discover_iff hroot).mp hl
    · exact ⟨name, rfl, ofText?_of_isName hname⟩
    · exact ⟨name, rfl, ofText?_of_isName hname⟩

/-- Collections among files that are none: a wrong first letter, and a file too deep. -/
def shelf : Disk where
  root := .directory [("data", .directory [("api", .directory [
    ("pens.json", .file .empty), ("Pens.json", .file .empty), ("notes-.json", .file .empty),
    ("notes", .directory [("items.json", .file .empty), ("old.json", .file .empty)])])])]

/-- The directory comes before the file whose name is longer. -/
theorem discovered_shelf : shelf.root.WellFormed ∧ Discovered shelf (.ofText "data") ∧
    ofDirectory (.ofText "data") "notes" ∈ discover shelf (.ofText "data") ∧
      ofFile (.ofText "data") "notes-" ∈ discover shelf (.ofText "data") := by
  have hroot : shelf.root.WellFormed := by decide
  have hlisted := discovered shelf hroot (.ofText "data")
  have hitems : shelf.HasFile (((Path.ofText "data").child apiDirectory).child "notes")
      Location.itemsFile := Disk.hasFile_of_find Location.innerComponent?_itemsFile rfl
  have hfile : shelf.HasFile ((Path.ofText "data").child apiDirectory)
      ("notes-" ++ Location.fileSuffix) :=
    Disk.hasFile_of_find (Location.innerComponent?_fileSuffix "notes-") rfl
  exact ⟨hroot, hlisted,
    (hlisted.mem_iff _).mpr ⟨"notes", isSegment_iff.mp (by decide), .inl ⟨rfl, hitems⟩⟩,
    (hlisted.mem_iff _).mpr ⟨"notes-", isSegment_iff.mp (by decide), .inr ⟨rfl, hfile⟩⟩⟩

end Listing

end JsonCollections
