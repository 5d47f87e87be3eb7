import JsonCollections.Collection.Location
import JsonCollections.Proofs.Path
import JsonCollections.Proofs.Storage.Laws

set_option autoImplicit false

/-!
# The two files of a collection

A URL path leads to one of two files, and which one it is goes by whether its place is a directory.
The two are never the same (`sameAs_resolve_iff`): the names that they end in are the same for
`items` only, and then one lies deeper.
-/

namespace JsonCollections

namespace Location

/-- The place of a URL path below a base directory. -/
def place (base : Path) (urlPath : String) : Path := base.join (relative urlPath)

theorem innerComponent?_itemsFile : Path.innerComponent? itemsFile = some (.name itemsFile) := by
  decide

theorem innerComponent?_fileSuffix (s : String) :
    Path.innerComponent? (s ++ fileSuffix) = some (.name (s ++ fileSuffix)) := by
  apply Path.innerComponent?_of_length
  rw [String.length_append]
  have hlength : fileSuffix.length = 5 := by decide
  omega

/-- The file in a directory is not the file that has the name of the directory. -/
theorem not_sameAs_withSuffix (p : Path) :
    ¬ (p.child itemsFile).sameAs (p.withSuffix fileSuffix) = true := by
  rw [Path.sameAs_iff]
  intro heq
  obtain ⟨segments⟩ := p
  have hsuffix : (Path.withSuffix ⟨segments⟩ fileSuffix).components =
      Path.ahead segments.dropLast ++ [.name (segments.getLast?.getD "" ++ fileSuffix)] :=
    Path.components_concat _ (innerComponent?_fileSuffix _)
  have hchild : (Path.child ⟨segments⟩ itemsFile).components =
      Path.ahead (if segments.getLast? = some "" then segments.dropLast else segments) ++
        [.name itemsFile] := Path.components_concat _ innerComponent?_itemsFile
  rw [hsuffix, hchild] at heq
  obtain ⟨hfront, hname⟩ := List.append_inj' heq rfl
  -- both end in the same name, so the directory is called like the file in it
  have hlast : segments.getLast?.getD "" = "items" := by
    have hnames := congrArg String.toList (Component.name.inj (List.cons.inj hname).1)
    rw [String.toList_append] at hnames
    apply String.toList_inj.mp
    apply (List.append_left_inj fileSuffix.toList).mp
    rw [← hnames]
    rfl
  obtain ⟨front, rfl⟩ : ∃ front, segments = front ++ ["items"] := by
    rcases List.eq_nil_or_concat segments with rfl | ⟨front, last, rfl⟩
    · exact absurd hlast (by decide)
    · rw [List.concat_eq_append, List.getLast?_concat, Option.getD_some] at hlast
      exact ⟨front, by rw [List.concat_eq_append, hlast]⟩
  rw [if_neg (by simp), List.dropLast_concat, Path.ahead_concat front (by decide)] at hfront
  have hlength := congrArg List.length hfront
  rw [List.length_append] at hlength
  simp at hlength

/-- A relative path of names only has the components of its segments. -/
theorem components_of_isPlain {p : Path} (h : isPlain p = true) :
    p.components = p.segments.filterMap Path.innerComponent? := by
  unfold isPlain at h
  unfold Path.components at h ⊢
  split at h
  · simp at h
  · simp at h
  · rfl

/-- The first segment of a relative path of names counts. -/
theorem exists_first_of_isPlain {p : Path} (h : isPlain p = true) :
    ∃ first rest, p.segments = first :: rest ∧ first ≠ "" ∧ first ≠ "." := by
  obtain ⟨segments⟩ := p
  cases segments with
  | nil => cases h
  | cons first rest =>
    refine ⟨first, rest, rfl, ?_, ?_⟩
    · rintro rfl
      cases rest <;> cases h
    · rintro rfl
      cases h

/-- The components of a place are those of the base directory and of the URL path. -/
theorem components_place (base : Path) {urlPath : String}
    (hplain : isPlain (relative urlPath) = true) :
    (place base urlPath).components = base.components ++ (relative urlPath).components := by
  obtain ⟨first, rest, hsegments, hempty, hdot⟩ := exists_first_of_isPlain hplain
  rw [components_of_isPlain hplain, hsegments, place, ← Path.components_join base hempty hdot,
    ← hsegments]

/-- The last segment of a URL path is a name, to which `.json` is added. -/
def EndsInName (urlPath : String) : Prop :=
  ∃ s, (relative urlPath).segments.getLast? = some s ∧ Path.innerComponent? s = some (.name s)

theorem EndsInName.place {urlPath : String} (h : EndsInName urlPath) (base : Path) :
    ∃ s, (Location.place base urlPath).segments.getLast? = some s ∧
      Path.innerComponent? s = some (.name s) := by
  obtain ⟨s, hs, hname⟩ := h
  refine ⟨s, ?_, hname⟩
  unfold Location.place Path.join
  rw [List.getLast?_append, hs, Option.some_or]

variable {σ : Type} [Storage σ]

/-- Where a URL path leads depends on the directories of the store only. -/
theorem resolve_congr {store store' : σ}
    (h : ∀ q, Storage.isDirectory store' q = Storage.isDirectory store q) (base : Path)
    (urlPath : String) : resolve store' base urlPath = resolve store base urlPath := by
  simp only [resolve, h]

theorem resolve_eq_some {store : σ} {base : Path} {urlPath : String} {file : Path}
    (h : resolve store base urlPath = some file) :
    file = if Storage.isDirectory store (place base urlPath) then (place base urlPath).child itemsFile
      else (place base urlPath).withSuffix fileSuffix := by
  unfold resolve at h
  simp only at h
  split at h
  · split at h
    · rename_i hdirectory
      rw [place, if_pos hdirectory]
      exact (Option.some.inj h).symm
    · rename_i hdirectory
      rw [place, if_neg hdirectory]
      exact (Option.some.inj h).symm
  · cases h

/-- A URL path leads to the same file of two stores exactly if its place is a directory of both or
of none. -/
theorem sameAs_resolve_iff {store store' : σ} {base : Path} {urlPath : String} {file file' : Path}
    (h : resolve store base urlPath = some file) (h' : resolve store' base urlPath = some file') :
    file.sameAs file' = true ↔
      Storage.isDirectory store (place base urlPath) =
        Storage.isDirectory store' (place base urlPath) := by
  have hne := not_sameAs_withSuffix (place base urlPath)
  rw [resolve_eq_some h, resolve_eq_some h']
  cases Storage.isDirectory store (place base urlPath) <;>
    cases Storage.isDirectory store' (place base urlPath)
  · exact ⟨fun _ => rfl, fun _ => Path.sameAs_refl _⟩
  · exact ⟨fun hsame => absurd (Path.sameAs_comm _ _ ▸ hsame) hne, nofun⟩
  · exact ⟨fun hsame => absurd hsame hne, nofun⟩
  · exact ⟨fun _ => rfl, fun _ => Path.sameAs_refl _⟩

/-! ## Two spellings of one collection -/

/-- Two URL paths that end in names spell one collection: both have the same components, and the
place of both is a directory or of none, or the second is the `items` in the directory of the
first. -/
inductive Respelled (store : σ) (base : Path) (urlPath urlPath' : String) : Prop where
  | spelling (hname : EndsInName urlPath) (hname' : EndsInName urlPath')
      (hcomponents : (relative urlPath).components = (relative urlPath').components)
      (hdirectory : Storage.isDirectory store (place base urlPath) =
        Storage.isDirectory store (place base urlPath'))
  | items (hname : EndsInName urlPath) (hname' : EndsInName urlPath')
      (hcomponents : (relative urlPath').components =
        (relative urlPath).components ++ [.name "items"])
      (hdirectory : Storage.isDirectory store (place base urlPath) = true)
      (hfile : Storage.isDirectory store (place base urlPath') = false)

theorem isPlain_of_resolve {store : σ} {base : Path} {urlPath : String} {file : Path}
    (h : resolve store base urlPath = some file) : isPlain (relative urlPath) = true := by
  unfold resolve at h
  simp only at h
  split at h
  · assumption
  · cases h

/-- Both spellings of a collection lead to its file. -/
theorem Respelled.sameAs {store : σ} {base : Path} {urlPath urlPath' : String} {file file' : Path}
    (h : Respelled store base urlPath urlPath') (hfile : resolve store base urlPath = some file)
    (hfile' : resolve store base urlPath' = some file') : file.sameAs file' = true := by
  have hplace := components_place base (isPlain_of_resolve hfile)
  have hplace' := components_place base (isPlain_of_resolve hfile')
  rw [Path.sameAs_iff, resolve_eq_some hfile, resolve_eq_some hfile']
  cases h with
  | spelling hname hname' hcomponents hdirectory =>
    obtain ⟨s, hs, hname⟩ := hname.place base
    obtain ⟨s', hs', hname'⟩ := hname'.place base
    have hsame : (place base urlPath).components = (place base urlPath').components := by
      rw [hplace, hplace', hcomponents]
    rw [hdirectory]
    split
    · rw [Path.components_child _ innerComponent?_itemsFile,
        Path.components_child _ innerComponent?_itemsFile, hsame]
    · obtain ⟨parts, hparts, hlonger⟩ :=
        Path.components_withSuffix hs hname (innerComponent?_fileSuffix s)
      obtain ⟨parts', hparts', hlonger'⟩ :=
        Path.components_withSuffix hs' hname' (innerComponent?_fileSuffix s')
      rw [hparts, hparts'] at hsame
      obtain ⟨rfl, hlast⟩ := List.append_inj' hsame rfl
      obtain rfl : s = s' := Component.name.inj (List.cons.inj hlast).1
      rw [hlonger, hlonger']
  | items _ hname' hcomponents hdirectory hnone =>
    obtain ⟨s', hs', hname'⟩ := hname'.place base
    obtain ⟨parts, hparts, hlonger⟩ :=
      Path.components_withSuffix hs' hname' (innerComponent?_fileSuffix s')
    rw [hplace', hcomponents, ← List.append_assoc, ← hplace] at hparts
    obtain ⟨hinside, hlast⟩ := List.append_inj' hparts rfl
    obtain rfl : "items" = s' := Component.name.inj (List.cons.inj hlast).1
    rw [if_pos hdirectory, hnone, if_neg Bool.false_ne_true,
      Path.components_child _ innerComponent?_itemsFile, hlonger, hinside]
    rfl

/-- In memory a collection is found however its URL path is spelled. -/
theorem respelled_of_components (store : Memory) (base : Path) {urlPath urlPath' : String}
    (hname : EndsInName urlPath) (hname' : EndsInName urlPath')
    (hplain : isPlain (relative urlPath) = true)
    (hcomponents : (relative urlPath).components = (relative urlPath').components) :
    Respelled store base urlPath urlPath' := by
  have hplain' : isPlain (relative urlPath') = true := by
    unfold isPlain at hplain ⊢
    rwa [← hcomponents]
  refine .spelling hname hname' hcomponents (Memory.isDirectory_congr store ?_)
  rw [Path.sameAs_iff, components_place base hplain, components_place base hplain', hcomponents]

/-- Slashes more and dots inside do not make another collection. -/
example (store : Memory) (base : Path) :
    Respelled store base "/api/notes" "/api//./notes/" :=
  respelled_of_components store base ⟨"notes", by decide, by decide⟩
    ⟨"notes", by decide, by decide⟩ (by decide) (by decide)

end Location

end JsonCollections
