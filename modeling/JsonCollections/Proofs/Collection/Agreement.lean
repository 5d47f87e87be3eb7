import JsonCollections.Proofs.Collection.Confinement
import JsonCollections.Proofs.Collection.Discovery

set_option autoImplicit false

/-!
# Listing collections and loading them

The URL path of a listed collection leads to its file, unless the file lies beside a directory of
the same name: then the collection is looked for in the directory (`agreement`).  So two listed
collections have one URL path exactly if a name has both files.
-/

namespace JsonCollections

namespace Listing

/-! ## Where the URL path of a name leads -/

theorem relative_urlPathOf {name : String} (h : IsName name) :
    Location.relative (urlPathOf name) = ⟨[apiDirectory, name]⟩ := by
  have hrelative := relative_api (List.cons_ne_nil name []) (List.forall_mem_singleton.mpr h)
  rwa [String.intercalate_singleton, ← urlPathOf_eq] at hrelative

/-- The place of a name is that of a directory inside the directory of collections. -/
theorem place_urlPathOf {name : String} (h : IsName name) (base : Path) :
    Location.place base (urlPathOf name) = (base.child apiDirectory).child name := by
  rw [Location.place, relative_urlPathOf h, Path.join_pair base (by decide)]

variable {disk : Disk} {base : Path} {name : String}

/-- A name leads to the directory of that name if there is one, and to the file otherwise. -/
theorem resolve_urlPathOf (h : IsName name) (disk : Disk) (base : Path) :
    Location.resolve disk base (urlPathOf name) =
      if Storage.isDirectory disk ((base.child apiDirectory).child name) then
        some (ofDirectory base name).path
      else some (ofFile base name).path := by
  have hplain : Location.isPlain (Location.relative (urlPathOf name)) = true := by
    rw [urlPathOf_eq]
    exact h.isRoute.isPlain
  have hplace : base.join (Location.relative (urlPathOf name)) =
      (base.child apiDirectory).child name := place_urlPathOf h base
  have hfile : ((base.child apiDirectory).child name).withSuffix Location.fileSuffix =
      (ofFile base name).path := Path.withSuffix_child _ _ _
  rw [← hfile]
  simp only [Location.resolve, hplain, hplace, if_true]
  rfl

/-! ## Shadowed files -/

/-- The file of the collection lies beside a directory that has the name of the collection. -/
def Shadowed (disk : Disk) (base : Path) (l : Listing) : Prop :=
  l.path = (Location.place base l.urlPath).withSuffix Location.fileSuffix ∧
    Storage.isDirectory disk (Location.place base l.urlPath) = true

theorem path_ofDirectory_ne (base : Path) (name : String) :
    (ofDirectory base name).path ≠ (ofFile base name).path := by
  intro heq
  refine Location.not_sameAs_withSuffix ((base.child apiDirectory).child name) ?_
  have hsame : ((base.child apiDirectory).child name).child Location.itemsFile =
      ((base.child apiDirectory).child name).withSuffix Location.fileSuffix :=
    heq.trans (Path.withSuffix_child _ _ _).symm
  rw [hsame]
  exact Path.sameAs_refl _

theorem shadowed_ofFile_iff (h : IsName name) : (ofFile base name).Shadowed disk base ↔
    Storage.isDirectory disk ((base.child apiDirectory).child name) = true := by
  have hplace : Location.place base (ofFile base name).urlPath =
      (base.child apiDirectory).child name := place_urlPathOf h base
  rw [Shadowed, hplace, Path.withSuffix_child]
  exact and_iff_right rfl

theorem not_shadowed_ofDirectory (h : IsName name) :
    ¬ (ofDirectory base name).Shadowed disk base := by
  have hplace : Location.place base (ofDirectory base name).urlPath =
      (base.child apiDirectory).child name := place_urlPathOf h base
  rw [Shadowed, hplace, Path.withSuffix_child]
  exact fun hshadowed => path_ofDirectory_ne base name hshadowed.1

theorem urlPathOf_inj {name other : String} (h : urlPathOf name = urlPathOf other) :
    name = other := by
  have hchars : ("/" ++ apiDirectory ++ "/").toList ++ name.toList =
      ("/" ++ apiDirectory ++ "/").toList ++ other.toList := by
    rw [← String.toList_append, ← String.toList_append]
    exact congrArg String.toList h
  exact String.toList_inj.mp (List.append_cancel_left hchars)

/-- A directory of the name leads away from the file. -/
theorem resolve_ofFile_ne (h : IsName name)
    (hdirectory : Storage.isDirectory disk ((base.child apiDirectory).child name) = true) :
    Location.resolve disk base (ofFile base name).urlPath ≠ some (ofFile base name).path := by
  have hleads := (resolve_urlPathOf h disk base).trans (if_pos hdirectory)
  exact fun heq => path_ofDirectory_ne base name (Option.some.inj (hleads.symm.trans heq))

/-- The two files of a name have one URL path. -/
theorem not_nodup_urlPath (hdirectory : ofDirectory base name ∈ discover disk base)
    (hfile : ofFile base name ∈ discover disk base) :
    ¬ ((discover disk base).map Listing.urlPath).Nodup := by
  intro hnodup
  have heq := List.inj_on_of_nodup_map hnodup hdirectory hfile rfl
  exact path_ofDirectory_ne base name (congrArg Listing.path heq)

/-! ## Agreement -/

/-- How far the collections that are listed are those that are loaded. -/
structure Agreement (disk : Disk) (base : Path) : Prop where
  /-- the URL path of a listed collection leads to its file unless a directory shadows the file -/
  resolve_iff : ∀ l ∈ discover disk base,
    Location.resolve disk base l.urlPath = some l.path ↔ ¬ l.Shadowed disk base
  /-- and to the file of items in the directory if one does -/
  resolve_shadowed : ∀ l ∈ discover disk base, l.Shadowed disk base →
    Location.resolve disk base l.urlPath =
      some ((Location.place base l.urlPath).child Location.itemsFile)
  /-- URL paths are listed once unless a name has both files -/
  nodup_iff : ((discover disk base).map Listing.urlPath).Nodup ↔
    ¬ ∃ name, ofDirectory base name ∈ discover disk base ∧ ofFile base name ∈ discover disk base

/-- Listing and loading agree up to files beside directories of the same name. -/
theorem agreement (disk : Disk) (hroot : disk.root.WellFormed) (base : Path) :
    Agreement disk base where
  resolve_iff l hl := by
    obtain ⟨name, hname, ⟨rfl, hfile⟩ | ⟨rfl, -⟩⟩ := (mem_discover_iff hroot).mp hl
    · refine iff_of_true ?_ (not_shadowed_ofDirectory hname)
      exact (resolve_urlPathOf hname disk base).trans (if_pos (Disk.isDirectory_of_hasFile hfile))
    · rw [shadowed_ofFile_iff hname]
      by_cases hdirectory : Storage.isDirectory disk ((base.child apiDirectory).child name) = true
      · exact iff_of_false (resolve_ofFile_ne hname hdirectory) (not_not.mpr hdirectory)
      · exact iff_of_true ((resolve_urlPathOf hname disk base).trans (if_neg hdirectory)) hdirectory
  resolve_shadowed l hl hshadowed := by
    obtain ⟨name, hname, ⟨rfl, -⟩ | ⟨rfl, -⟩⟩ := (mem_discover_iff hroot).mp hl
    · exact absurd hshadowed (not_shadowed_ofDirectory hname)
    · have hdirectory := (shadowed_ofFile_iff hname).mp hshadowed
      have hplace : Location.place base (ofFile base name).urlPath =
          (base.child apiDirectory).child name := place_urlPathOf hname base
      rw [hplace]
      exact (resolve_urlPathOf hname disk base).trans (if_pos hdirectory)
  nodup_iff := by
    constructor
    · rintro hnodup ⟨name, hdirectory, hfile⟩
      exact not_nodup_urlPath hdirectory hfile hnodup
    · intro hboth
      have hdistinct := (nodup_path_discover hroot base).of_map
      refine List.Nodup.map_on (fun l hl l' hl' hurlPath => ?_) hdistinct
      obtain ⟨name, -, ⟨rfl, -⟩ | ⟨rfl, -⟩⟩ := (mem_discover_iff hroot).mp hl
      · obtain ⟨other, -, ⟨rfl, -⟩ | ⟨rfl, -⟩⟩ := (mem_discover_iff hroot).mp hl'
        · rw [urlPathOf_inj hurlPath]
        · obtain rfl := urlPathOf_inj hurlPath
          exact absurd ⟨name, hl, hl'⟩ hboth
      · obtain ⟨other, -, ⟨rfl, -⟩ | ⟨rfl, -⟩⟩ := (mem_discover_iff hroot).mp hl'
        · obtain rfl := urlPathOf_inj hurlPath
          exact absurd ⟨name, hl', hl⟩ hboth
        · rw [urlPathOf_inj hurlPath]

/-! ## A name with both files -/

/-- Notes are in a file and in a directory, and cards in a file beside a directory without items. -/
def desk : Disk where
  root := .directory [("data", .directory [("api", .directory [
    ("notes", .directory [("items.json", .file .empty)]), ("notes.json", .file .empty),
    ("cards", .directory []), ("cards.json", .file .empty)])])]

theorem wellFormed_desk : desk.root.WellFormed := by decide

/-- Both notes and cards are listed by their file, and a directory of that name is there. -/
theorem mem_discover_desk {name : String} (h : name = "notes" ∨ name = "cards") :
    IsName name ∧ ofFile (.ofText "data") name ∈ discover desk (.ofText "data") ∧
      Storage.isDirectory desk (((Path.ofText "data").child apiDirectory).child name) = true := by
  have hname : IsName name := by
    rcases h with rfl | rfl <;> exact isSegment_iff.mp (by decide)
  have hfile : desk.HasFile ((Path.ofText "data").child apiDirectory)
      (name ++ Location.fileSuffix) := by
    have hfind : desk.find (((Path.ofText "data").child apiDirectory).child
        (name ++ Location.fileSuffix)) = .ok (.file .empty) := by
      rcases h with rfl | rfl <;> rfl
    exact Disk.hasFile_of_find (Location.innerComponent?_fileSuffix name) hfind
  refine ⟨hname, (mem_discover_iff wellFormed_desk).mpr ⟨name, hname, .inr ⟨rfl, hfile⟩⟩, ?_⟩
  rcases h with rfl | rfl <;> decide

theorem agreement_desk : desk.root.WellFormed ∧ Agreement desk (.ofText "data") ∧
    ofFile (.ofText "data") "cards" ∈ discover desk (.ofText "data") ∧
      (ofFile (.ofText "data") "cards").Shadowed desk (.ofText "data") := by
  obtain ⟨hname, hlisted, hdirectory⟩ := mem_discover_desk (.inr rfl)
  exact ⟨wellFormed_desk, agreement desk wellFormed_desk (.ofText "data"), hlisted,
    (shadowed_ofFile_iff hname).mpr hdirectory⟩

/-- The file of the notes is listed and not loaded, and their URL path is listed twice. -/
theorem not_resolve_of_discover_desk : desk.root.WellFormed ∧
    ¬ (∀ l ∈ discover desk (.ofText "data"),
      Location.resolve desk (.ofText "data") l.urlPath = some l.path) ∧
    ¬ ((discover desk (.ofText "data")).map Listing.urlPath).Nodup := by
  obtain ⟨hname, hlisted, hdirectory⟩ := mem_discover_desk (.inl rfl)
  have hfile : desk.HasFile (((Path.ofText "data").child apiDirectory).child "notes")
      Location.itemsFile := Disk.hasFile_of_find Location.innerComponent?_itemsFile rfl
  have hitems : ofDirectory (.ofText "data") "notes" ∈ discover desk (.ofText "data") :=
    (mem_discover_iff wellFormed_desk).mpr ⟨"notes", hname, .inl ⟨rfl, hfile⟩⟩
  exact ⟨wellFormed_desk, fun hresolve => resolve_ofFile_ne hname hdirectory (hresolve _ hlisted),
    not_nodup_urlPath hitems hlisted⟩

end Listing

end JsonCollections
