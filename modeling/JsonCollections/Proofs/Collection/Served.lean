import JsonCollections.Proofs.Collection.Confinement
import JsonCollections.Proofs.Collection.Mirror
import JsonCollections.Proofs.Collection.RoundTrip

set_option autoImplicit false

/-!
# URL paths of names

A URL path is *served* if it is made of names of collections and nothing that it can lead to is too
long.  It leads to the file of a collection (`Served.filed`), and memory that mirrors a disk loads
the same from it (`Served.load_eq`).
-/

namespace JsonCollections

open Listing (IsName IsShelved)

namespace Path

/-- Another name at the end of a path. -/
theorem components_dropLast_concat {p : Path} {parts : List Component} {s t : String}
    (hlast : p.segments.getLast? = some s) (hs : innerComponent? s = some (.name s))
    (hp : p.components = parts ++ [.name s]) (ht : innerComponent? t = some (.name t)) :
    components ⟨p.segments.dropLast ++ [t]⟩ = parts ++ [.name t] := by
  obtain ⟨segments⟩ := p
  obtain ⟨front, rfl⟩ := List.getLast?_eq_some_iff.mp hlast
  rw [components_concat front hs] at hp
  rw [List.dropLast_concat, components_concat front ht, List.append_cancel_right hp]

theorem asksDirectory_of_name {p : Path} {s : String} (hlast : p.segments.getLast? = some s)
    (hs : innerComponent? s = some (.name s)) : p.asksDirectory = false := by
  have hne : s ≠ "" ∧ s ≠ "." := by
    constructor <;> rintro rfl <;> cases hs
  simp [asksDirectory, hlast, hne]

/-- A text that does not end in a slash, and does not begin with one, has a last segment. -/
theorem getLast?_ne_empty {p : Path} {first : String} {rest : List String}
    (hsegments : p.segments = first :: rest) (hfirst : first ≠ "")
    (hlast : p.text.toList.getLast? ≠ some '/') : p.segments.getLast? ≠ some "" := by
  intro hempty
  obtain ⟨front, hfront⟩ := List.getLast?_eq_some_iff.mp hempty
  rcases List.eq_nil_or_concat front with rfl | ⟨more, last, rfl⟩
  · rw [hsegments] at hfront
    exact hfirst (List.cons.inj hfront).1
  · refine hlast ?_
    rw [text, hfront, List.map_append, List.map_singleton, intercalate_concat, String.toList_ofList,
      String.toList_empty, List.append_nil, List.concat_eq_append, List.map_append,
      List.flatMap_append, List.map_singleton, List.flatMap_singleton, ← List.append_assoc,
      List.getLast?_concat]

end Path

namespace Location

/-- The URL path consists of names of collections, and neither its place nor a file that it can lead
to is too long, nor is the temporary sibling of the file. -/
structure Served (base : Path) (urlPath : String) : Prop where
  segments : ∀ s ∈ (relative urlPath).segments, s = "" ∨ IsName s
  place_fits : (place base urlPath).WithinLimits
  files_fit : ∀ file ∈ [(place base urlPath).child itemsFile,
    (place base urlPath).withSuffix fileSuffix],
      file.WithinLimits ∧ (Disk.temporaryPath file).WithinLimits

theorem served_iff {base : Path} {urlPath : String} : Served base urlPath ↔
    (∀ s ∈ (relative urlPath).segments, s = "" ∨ IsName s) ∧ (place base urlPath).WithinLimits ∧
      ∀ file ∈ [(place base urlPath).child itemsFile, (place base urlPath).withSuffix fileSuffix],
        file.WithinLimits ∧ (Disk.temporaryPath file).WithinLimits :=
  ⟨fun h => ⟨h.segments, h.place_fits, h.files_fit⟩, fun h => ⟨h.1, h.2.1, h.2.2⟩⟩

instance (base : Path) : DecidablePred (Served base) := fun _ => decidable_of_iff _ served_iff.symm

theorem exists_isName_of_segments {segments : List String}
    (h : ∀ s ∈ segments, s = "" ∨ IsName s) : ∃ names : List String,
      segments.filterMap Path.innerComponent? = names.map .name ∧ ∀ name ∈ names, IsName name := by
  induction segments with
  | nil => exact ⟨[], rfl, nofun⟩
  | cons s rest ih =>
    obtain ⟨hs, hrest⟩ := List.forall_mem_cons.mp h
    obtain ⟨names, hnames, hall⟩ := ih hrest
    rcases hs with rfl | hs
    · exact ⟨names, hnames, hall⟩
    · refine ⟨s :: names, ?_, List.forall_mem_cons.mpr ⟨hs, hall⟩⟩
      rw [List.filterMap_cons_some hs.innerComponent?, hnames, List.map_cons]

section

variable {base : Path} {urlPath : String}

/-- The names that a served URL path consists of. -/
theorem Served.exists_names (h : Served base urlPath)
    (hplain : isPlain (relative urlPath) = true) : ∃ front last,
      (place base urlPath).components = base.components ++ (front ++ [last]).map .name ∧
        (place base urlPath).segments.getLast? = some last ∧
          (∀ name ∈ front, IsName name) ∧ IsName last := by
  obtain ⟨first, rest, hsegments, hfirst, -⟩ := exists_first_of_isPlain hplain
  obtain ⟨-, -, -, -, -, hslash⟩ := trimmed_relative urlPath
  have hne : (relative urlPath).segments ≠ [] := hsegments ▸ List.cons_ne_nil first rest
  obtain ⟨inner, last, hinner⟩ : ∃ inner last, (relative urlPath).segments = inner ++ [last] :=
    ⟨_, _, (List.dropLast_append_getLast hne).symm⟩
  have hlast : IsName last := by
    refine (h.segments last (hinner ▸ List.mem_concat_self)).resolve_left ?_
    rintro rfl
    refine Path.getLast?_ne_empty hsegments hfirst hslash ?_
    rw [hinner, List.getLast?_concat]
  obtain ⟨front, hfront, hall⟩ := exists_isName_of_segments fun s hs =>
    h.segments s (hinner ▸ List.mem_append_left _ hs)
  refine ⟨front, last, ?_, ?_, hall, hlast⟩
  · rw [components_place base hplain, components_of_isPlain hplain, hinner, List.filterMap_append,
      hfront, List.filterMap_cons_some hlast.innerComponent?, List.map_append]
    rfl
  · rw [place, Path.join, List.getLast?_append, hinner, List.getLast?_concat, Option.some_or]

/-- The path of a file below the base directory is that of a collection by its names. -/
theorem filed_of_components {p : Path} {front : List String} {stem : String}
    (hlast : p.segments.getLast? = some (stem ++ fileSuffix))
    (hp : p.components = base.components ++ (front ++ [stem ++ fileSuffix]).map .name)
    (hfront : ∀ name ∈ front, IsName name) (hstem : IsName stem)
    (hfits : p.WithinLimits ∧ (Disk.temporaryPath p).WithinLimits) :
    Filed base p (front ++ [stem ++ fileSuffix]) where
  components := hp
  temporary := by
    rw [List.map_append, List.map_singleton, ← List.append_assoc] at hp
    rw [Replacement.temporaryPlace_concat, List.map_append, List.map_singleton,
      ← List.append_assoc]
    exact Disk.components_temporaryPath hp
  shelved := ⟨front, stem, rfl, hfront, hstem⟩
  not_directory := Path.asksDirectory_of_name hlast (innerComponent?_fileSuffix stem)
  fits := hfits.1
  temporary_fits := hfits.2

variable {σ : Type} [Storage σ]

/-- A served URL path leads to the file of a collection. -/
theorem Served.filed (h : Served base urlPath) {store : σ} {file : Path}
    (hresolve : resolve store base urlPath = some file) : ∃ names, Filed base file names := by
  obtain ⟨front, last, hcomponents, hlast, hfront, hname⟩ :=
    h.exists_names (isPlain_of_resolve hresolve)
  rw [resolve_eq_some hresolve]
  split
  · refine ⟨front ++ [last] ++ ["items" ++ fileSuffix], filed_of_components ?_ ?_ ?_ ?_ ?_⟩
    · exact List.getLast?_concat
    · rw [Path.components_child _ innerComponent?_itemsFile, hcomponents, List.append_assoc,
        @List.map_append _ _ _ (front ++ [last])]
      rfl
    · exact List.forall_mem_append.mpr ⟨hfront, List.forall_mem_singleton.mpr hname⟩
    · exact Listing.isSegment_iff.mp (by decide)
    · exact h.files_fit _ List.mem_cons_self
  · refine ⟨front ++ [last ++ fileSuffix], filed_of_components ?_ ?_ hfront hname ?_⟩
    · rw [Path.withSuffix, List.getLast?_concat, hlast, Option.getD_some]
    · have hp : (place base urlPath).components =
          base.components ++ front.map .name ++ [.name last] := by
        rw [hcomponents, List.map_append, List.append_assoc]
        rfl
      rw [Path.withSuffix, hlast, Option.getD_some, Path.components_dropLast_concat hlast
        hname.innerComponent? hp (innerComponent?_fileSuffix last), List.append_assoc,
        List.map_append]
      rfl
    · exact h.files_fit _ (List.mem_cons_of_mem _ List.mem_cons_self)

end

section

variable {memory : Memory} {disk : Disk} {base : Path} {urlPath : String} {place : List String}
  (hstocked : disk.Stocked base place) (hmirrors : memory.Mirrors disk base place)
  (hserved : Served base urlPath)

include hstocked hmirrors hserved

/-- A served URL path leads to the same file in both stores. -/
theorem Served.resolve_eq : resolve memory base urlPath = resolve disk base urlPath := by
  unfold resolve
  simp only
  split
  · rename_i hplain
    obtain ⟨front, last, hcomponents, -⟩ := hserved.exists_names hplain
    have hdirectory := isDirectory_eq hstocked hmirrors hcomponents hserved.place_fits
      (List.concat_ne_nil _ _)
    rw [Location.place] at hdirectory
    rw [hdirectory]
  · rfl

end

end Location

namespace Collection

open Location (Served Filed)

variable {memory : Memory} {disk : Disk} {library : Library} {urlPath : String}
  {place : List String} (hstocked : disk.Stocked library.base place)
  (hmirrors : memory.Mirrors disk library.base place) (hserved : Served library.base urlPath)

include hstocked hmirrors hserved

/-- A served URL path is loaded with the same end from both stores. -/
theorem load_eq_of_served : load memory library urlPath = load disk library urlPath := by
  unfold load
  rw [hserved.resolve_eq hstocked hmirrors]
  cases hresolve : Location.resolve disk library.base urlPath with
  | none => rfl
  | some file =>
    obtain ⟨names, hfiled⟩ := hserved.filed hresolve
    simp only [read_eq hstocked hfiled hmirrors]

omit hstocked hmirrors in
/-- What is loaded has a file. -/
theorem filed_of_load {c : Collection} (hload : load memory library urlPath = .ok c) :
    (∃ names, Filed library.base c.filePath names) ∧
      (memory.get? c.filePath).isSome = true := by
  obtain ⟨text, hresolve, hread, -, -⟩ := load_eq_ok hload
  exact ⟨hserved.filed hresolve, Option.isSome_of_eq_some (Memory.read_eq_ok_iff.mp hread)⟩

omit hserved in
/-- A change of a collection is answered in the same way and stored in both. -/
theorem mutate_eq_of_filed {c : Collection} {names : List String}
    (hfiled : Filed library.base c.filePath names)
    (hfile : (memory.get? c.filePath).isSome = true) (m : Mutation) :
    ∃ memory' disk' result, c.mutate memory m = (memory', result) ∧
      c.mutate disk m = (disk', result) ∧
        MoveTogether library.base place memory disk memory' disk' := by
  cases happly : c.apply m with
  | error error =>
    refine ⟨memory, disk, (c, .error error), ?_, ?_, .refl hstocked hmirrors⟩
    · simp only [mutate, happly]
    · simp only [mutate, happly]
  | ok changed =>
    obtain ⟨d, answer⟩ := changed
    have hpath := (applied_of_apply happly).sameFile.filePath
    obtain ⟨memory', disk', hmemory, hdisk, htogether⟩ :=
      write_eq hstocked hmirrors hfiled hfile (textOfItems d.items)
    rw [← hpath] at hmemory hdisk
    refine ⟨memory', disk', (d, .ok answer), ?_, ?_, htogether⟩
    · simp only [mutate, happly, storeIn, hmemory]
    · simp only [mutate, happly, storeIn, hdisk]

end Collection

end JsonCollections
