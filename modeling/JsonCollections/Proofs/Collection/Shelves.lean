import JsonCollections.Proofs.Collection.Discovery
import JsonCollections.Proofs.Storage.Replacing

set_option autoImplicit false

/-!
# Disks with collections only

A disk is *stocked* if all that its base directory holds is files of collections and the directories
that lead to them.  Then below every directory there is a file (`Stocked.exists_file`), no file is in the
way of another (`Stocked.eq_missing`), and replacing a file succeeds and leaves the disk stocked
(`Stocked.exists_write`, `Stocked.replaced`).
-/

namespace JsonCollections

open Listing (IsName)

/-! ## Trees without empty directories -/

namespace Node

/-- What is led on from is a directory. -/
theorem look_of_longer {root : Node} {front rest : List String} {name : String}
    (h : root.look (front ++ name :: rest) ≠ none) : root.look front = some none := by
  unfold look at h
  cases hwalk : root.walk (front ++ name :: rest) with
  | error fault =>
    rw [hwalk] at h
    exact absurd rfl h
  | ok found => exact look_eq_directory_iff.mpr (exists_directory_of_walk hwalk)

/-- What is seen in a directory is the directory, or is seen from one of its entries. -/
theorem look_directory_eq_some {entries : List (String × Node)} {names : List String}
    {found : Option ByteArray} (h : (directory entries).look names = some found) :
    names = [] ∧ found = none ∨
      ∃ entry ∈ entries, ∃ rest, names = entry.1 :: rest ∧ entry.2.look rest = some found := by
  cases names with
  | nil => exact .inl ⟨rfl, (Option.some.inj h).symm⟩
  | cons name rest =>
    rw [look_directory_cons] at h
    split at h
    · cases h
    · obtain ⟨node, hnode, hlook⟩ := Option.bind_eq_some_iff.mp h
      exact .inr ⟨(name, node), Entries.mem_of_get?_eq_some hnode, rest, rfl, hlook⟩

theorem look_file_eq_some {content : ByteArray} {names : List String} {found : Option ByteArray}
    (h : (file content).look names = some found) : names = [] ∧ found = some content := by
  cases names with
  | nil => exact ⟨rfl, (Option.some.inj h).symm⟩
  | cons name rest => cases h

/-- If no directory is empty, there is a file at or below every node. -/
theorem exists_file_below {root node : Node} {place : List String}
    (hfull : ∀ names, root.look (place ++ names) = some none →
      ∃ name, root.look (place ++ names ++ [name]) ≠ none) {names : List String}
    (hwalk : root.walk (place ++ names) = .ok node) :
    ∃ rest content, root.look (place ++ (names ++ rest)) = some (some content) := by
  induction node using inductionOnEntries generalizing names with
  | file content =>
    refine ⟨[], content, ?_⟩
    rw [List.append_nil]
    exact look_eq_file_iff.mpr hwalk
  | directory entries ih =>
    obtain ⟨name, hname⟩ := hfull names (look_eq_directory_iff.mpr ⟨entries, hwalk⟩)
    rw [look_append hwalk, look_directory_cons] at hname
    split at hname
    · exact absurd rfl hname
    · rename_i hlength
      cases hentry : Entries.get? entries name with
      | none =>
        rw [hentry] at hname
        exact absurd rfl hname
      | some child =>
        have hchild : root.walk (place ++ (names ++ [name])) = .ok child := by
          rw [← List.append_assoc, walk_append, hwalk]
          change (directory entries).walk [name] = _
          rw [walk, if_neg hlength, hentry]
          cases child <;> rfl
        obtain ⟨rest, content, hfile⟩ := ih _ (Entries.mem_of_get?_eq_some hentry) hchild
        exact ⟨name :: rest, content, by rwa [List.append_assoc] at hfile⟩

end Node

/-! ## Stocked disks -/

namespace Listing

instance : DecidablePred IsName := fun _ => decidable_of_iff _ isSegment_iff

/-- The names lead to the file of a collection. -/
def IsShelved (names : List String) : Prop :=
  ∃ front stem, names = front ++ [stem ++ Location.fileSuffix] ∧
    (∀ name ∈ front, IsName name) ∧ IsName stem

variable {names : List String}

theorem IsShelved.ne_nil (h : IsShelved names) : names ≠ [] := by
  obtain ⟨front, stem, rfl, -⟩ := h
  exact List.concat_ne_nil _ _

theorem IsShelved.innerComponent? (h : IsShelved names) :
    ∀ name ∈ names, Path.innerComponent? name = some (.name name) := by
  obtain ⟨front, stem, rfl, hfront, -⟩ := h
  intro name hname
  rcases List.mem_append.mp hname with hname | hname
  · exact (hfront name hname).innerComponent?
  · rw [List.mem_singleton.mp hname]
    exact Location.innerComponent?_fileSuffix stem

/-- Only the last name is not that of a collection. -/
theorem IsShelved.isName {front rest : List String} {name : String}
    (h : IsShelved (front ++ name :: rest)) : ∀ s ∈ front, IsName s := by
  obtain ⟨before, stem, heq, hbefore, -⟩ := h
  have hbegin : front <+: before := by
    have hdrop := congrArg List.dropLast heq
    rw [List.dropLast_concat, List.dropLast_append_of_ne_nil (List.cons_ne_nil name rest)] at hdrop
    exact hdrop ▸ List.prefix_append _ _
  exact fun s hs => hbefore s (hbegin.subset hs)

theorem dot_mem_fileSuffix (stem : String) : '.' ∈ (stem ++ Location.fileSuffix).toList := by
  rw [String.toList_append]
  exact List.mem_append_right _ (by decide)

/-- The file of a collection does not have the name of one. -/
theorem not_isName_fileSuffix (stem : String) : ¬ IsName (stem ++ Location.fileSuffix) :=
  fun h => h.not_mem (.inr rfl) (dot_mem_fileSuffix stem)

/-- Files of collections do not lie below one another. -/
theorem IsShelved.not_isShelved_longer {name : String} {rest : List String} (h : IsShelved names) :
    ¬ IsShelved (names ++ name :: rest) := by
  obtain ⟨front, stem, rfl, -⟩ := h
  exact fun hlonger => not_isName_fileSuffix stem (hlonger.isName _ List.mem_concat_self)

theorem not_isName_temporaryName (name : String) : ¬ IsName (Replacement.temporaryName name) := by
  refine fun h => h.not_mem (.inr rfl) ?_
  rw [Replacement.temporaryName, String.toList_append]
  exact List.mem_append_right _ (by decide)

/-- A temporary file is not named like the file of a collection. -/
theorem temporaryName_ne_fileSuffix (name stem : String) :
    Replacement.temporaryName name ≠ stem ++ Location.fileSuffix := by
  intro heq
  have hend := congrArg (fun s : String => s.toList.getLast?) heq
  simp only [Replacement.temporaryName, String.toList_append, List.getLast?_append] at hend
  have hletter : some 'p' = some 'n' := hend
  exact absurd hletter (by decide)

theorem not_isShelved_temporaryPlace (names : List String) :
    ¬ IsShelved (Replacement.temporaryPlace names) := by
  rintro ⟨front, stem, heq, -⟩
  obtain ⟨-, hlast⟩ := List.append_inj' heq rfl
  exact temporaryName_ne_fileSuffix _ stem (List.cons.inj hlast).1

end Listing

open Listing (IsShelved)

/-- The path leads from the base directory to the file of a collection, and neither it nor the path
of the temporary sibling is too long. -/
structure Location.Filed (base p : Path) (names : List String) : Prop where
  components : p.components = base.components ++ names.map .name
  temporary : (Disk.temporaryPath p).components =
    base.components ++ (Replacement.temporaryPlace names).map .name
  shelved : IsShelved names
  not_directory : p.asksDirectory = false
  fits : p.WithinLimits
  temporary_fits : (Disk.temporaryPath p).WithinLimits

namespace Disk

/-- All that the base directory holds is files of collections, which hold texts, and the directories
that lead to them; none of these is empty. -/
structure Stocked (disk : Disk) (base : Path) (place : List String) : Prop where
  place_base : disk.place base = .ok place
  look_base : disk.root.look place = some none
  directories : ∀ names, names ≠ [] → disk.root.look (place ++ names) = some none →
    (∀ name ∈ names, IsName name) ∧ ∃ name, disk.root.look (place ++ names ++ [name]) ≠ none
  files : ∀ names content, disk.root.look (place ++ names) = some (some content) →
    IsShelved names ∧ ∃ text, String.fromUTF8? content = some text

variable {disk : Disk} {base : Path} {place : List String}

theorem Stocked.exists_file (h : disk.Stocked base place) {names : List String} (hne : names ≠ [])
    (hlook : disk.root.look (place ++ names) = some none) :
    ∃ name rest content,
      disk.root.look (place ++ (names ++ name :: rest)) = some (some content) := by
  obtain ⟨entries, hwalk⟩ := Node.look_eq_directory_iff.mp hlook
  have hfull : ∀ more, disk.root.look (place ++ names ++ more) = some none →
      ∃ name, disk.root.look (place ++ names ++ more ++ [name]) ≠ none := by
    intro more hmore
    rw [List.append_assoc] at hmore ⊢
    exact (h.directories _ (List.append_ne_nil_of_left_ne_nil hne _) hmore).2
  rw [← List.append_nil (place ++ names)] at hwalk
  obtain ⟨rest, content, hfile⟩ := Node.exists_file_below hfull hwalk
  rw [List.nil_append, List.append_assoc] at hfile
  cases rest with
  | nil =>
    rw [List.append_nil, hlook] at hfile
    cases hfile
  | cons name rest => exact ⟨name, rest, content, hfile⟩

/-- Nothing is in the way of a file of a collection that is not there. -/
theorem Stocked.eq_missing (h : disk.Stocked base place) {names : List String}
    (hshelved : IsShelved names)
    (hlength : ∀ name ∈ names, name.utf8ByteSize ≤ Node.maxNameBytes) {fault : TreeFault}
    (hwalk : disk.root.walk (place ++ names) = .error fault) : fault = .missing := by
  obtain ⟨entries, hbase⟩ := Node.look_eq_directory_iff.mp h.look_base
  have hall : ∀ name ∈ place ++ names, name.utf8ByteSize ≤ Node.maxNameBytes := fun name hname =>
    (List.mem_append.mp hname).elim (Node.length_of_walk hbase name) (hlength name)
  rcases Node.walk_eq_error hall hwalk with hmissing | ⟨-, front, name, rest, content, heq, hfile⟩
  · exact hmissing
  · exfalso
    rcases List.append_eq_append_iff.mp heq with ⟨inner, rfl, rfl⟩ | ⟨outer, rfl, -⟩
    · obtain ⟨hinner, -⟩ := h.files inner content (Node.look_eq_file_iff.mpr hfile)
      exact hinner.not_isShelved_longer hshelved
    · -- the base directory, or one above it, would be a file
      cases outer with
      | nil =>
        rw [List.append_nil, hfile] at hbase
        cases hbase
      | cons first more =>
        obtain ⟨above, habove⟩ := Node.exists_directory_of_walk hbase
        rw [hfile] at habove
        cases habove

/-- No temporary file is left. -/
theorem Stocked.look_temporaryPlace (h : disk.Stocked base place) (names : List String) :
    disk.root.look (place ++ Replacement.temporaryPlace names) = none := by
  cases hfound : disk.root.look (place ++ Replacement.temporaryPlace names) with
  | none => rfl
  | some found =>
    exfalso
    cases found with
    | some content =>
      exact Listing.not_isShelved_temporaryPlace names (h.files _ _ hfound).1
    | none =>
      obtain ⟨hnames, -⟩ := h.directories _ (List.concat_ne_nil _ _) hfound
      exact Listing.not_isName_temporaryName _ (hnames _ List.mem_concat_self)

/-- The place of a path below another. -/
theorem place_below (hbase : disk.place base = .ok place) {p : Path} {names : List String}
    (hp : p.components = base.components ++ names.map .name) (hfits : p.WithinLimits) :
    disk.place p = .ok (place ++ names) := by
  rw [place_eq_follow disk hfits, hp, follow_append, follow_of_place hbase]
  exact follow_map_name disk.root place names

/-! ## Replacing files -/

section

variable {p : Path} {names : List String}

/-- Replacing the file of a collection succeeds on the disk and changes nothing else. -/
theorem Stocked.exists_write (hstocked : disk.Stocked base place)
    (hfiled : Location.Filed base p names) {content : ByteArray}
    (hlook : disk.root.look (place ++ names) = some (some content)) (text : String) :
    ∃ disk', Storage.write disk p text = (disk', .ok ()) ∧ disk'.place base = .ok place ∧
      ∀ q, disk'.root.look q =
        if q = place ++ names then some (some text.toUTF8) else disk.root.look q := by
  obtain ⟨front, name, hnames⟩ : ∃ front name, names = front ++ [name] := by
    obtain ⟨front, stem, hnames, -⟩ := hfiled.shelved
    exact ⟨front, _, hnames⟩
  have htarget : place ++ names = place ++ front ++ [name] := by rw [hnames, List.append_assoc]
  have hfree : disk.root.look (Replacement.temporaryPlace (place ++ names)) = none := by
    rw [Replacement.temporaryPlace_append place hfiled.shelved.ne_nil]
    exact hstocked.look_temporaryPlace names
  have hname : (Replacement.temporaryName name).utf8ByteSize ≤ Node.maxNameBytes := by
    refine hfiled.temporary_fits.names_le _ ?_
    rw [hfiled.temporary, hnames, Replacement.temporaryPlace_concat]
    exact List.mem_append_right _ (List.mem_map_of_mem List.mem_concat_self)
  have hrun : ((Replacement.ofPlace (place ++ names) text).run disk.root).2 = none := by
    rw [htarget] at hlook hfree ⊢
    rw [Replacement.temporaryPlace_concat] at hfree
    have hfound : disk.root.look (place ++ front ++ [name]) ≠ none := hlook ▸ nofun
    exact Replacement.run_eq_none (Node.look_of_longer hfound) hname (hlook ▸ nofun)
      (hfree ▸ nofun) text ByteArray.empty
  have hlast : p.fileName? = some name := by
    refine Path.fileName?_eq_some_iff.mpr ⟨base.components ++ front.map .name, ?_⟩
    rw [hfiled.components, hnames, List.map_append, List.append_assoc]
    rfl
  have hplace := place_below hstocked.place_base hfiled.components hfiled.fits
  have hbeside := place_below hstocked.place_base hfiled.temporary hfiled.temporary_fits
  have hwrite : Storage.write disk p text =
      ({ disk with root := (Replacement.ofPlace (place ++ names) text).result disk.root },
        .ok ()) := by
    have hjob : disk.replacement (fun _ => false) ByteArray.empty p text =
        .ok (Replacement.ofPlace (place ++ names) text) :=
      replacement_of_name (fun _ => rfl) hlast hfiled.not_directory hplace hbeside _ text
    simp only [Storage.write, writeText, writeWith, hjob, hrun]
  exact ⟨_, hwrite, place_eq_ok (sameDirectories_write hwrite) hstocked.place_base,
    Replacement.look_result_of_free hrun hfree⟩

end

section

variable {disk' : Disk} {names : List String} {content : ByteArray} {text : String}
  (hold : disk.root.look (place ++ names) = some (some content))
  (hnew : ∀ q, disk'.root.look q =
    if q = place ++ names then some (some text.toUTF8) else disk.root.look q)

include hold hnew

/-- Nothing is made and nothing taken away when a file gets another text. -/
theorem isSome_look_replaced (q : List String) :
    (disk'.root.look q).map Option.isSome = (disk.root.look q).map Option.isSome := by
  rw [hnew]
  split
  · rename_i hq
    rw [hq, hold]
    rfl
  · rfl

/-- A disk stays stocked when a file gets another text. -/
theorem Stocked.replaced (hstocked : disk.Stocked base place)
    (hplace : disk'.place base = .ok place) : disk'.Stocked base place := by
  have hdirectory : ∀ q, disk'.root.look q = some none → disk.root.look q = some none := by
    intro q hq
    rw [hnew] at hq
    split at hq
    · cases hq
    · exact hq
  refine ⟨hplace, ?_, fun others hne hlook => ?_, fun others found hlook => ?_⟩
  · have hne := (hstocked.files names content hold).1.ne_nil
    rw [hnew, if_neg fun heq => hne (List.self_eq_append_right.mp heq)]
    exact hstocked.look_base
  · obtain ⟨hnames, name, hname⟩ := hstocked.directories others hne (hdirectory _ hlook)
    refine ⟨hnames, name, fun hnone => hname ?_⟩
    have hsome := isSome_look_replaced hold hnew (place ++ others ++ [name])
    rw [hnone] at hsome
    exact Option.map_eq_none_iff.mp hsome.symm
  · rw [hnew] at hlook
    split at hlook
    · rename_i heq
      obtain rfl := List.append_cancel_left heq
      cases hlook
      exact ⟨(hstocked.files others content hold).1, text, fromUTF8?_toUTF8 text⟩
    · exact hstocked.files others found hlook

end

end Disk

end JsonCollections
