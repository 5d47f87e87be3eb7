import JsonCollections.Proofs.Collection.Confinement
import JsonCollections.Proofs.Collection.Shelves
import JsonCollections.Proofs.Storage.Places

set_option autoImplicit false

/-!
# Files are written whole

A write goes through several disks (`Disk.course`): the temporary sibling is made, filled and
flushed, and only then the target is replaced.  Whatever the system refuses on the way, at each of
these disks the target is as it was or has the new text in full, so whoever reads in between sees
no part of a text (`Disk.allOrNothing`).

The sibling is in nobody's way.  Its name gives away that of the target, and it ends in `.tmp`,
which no file of a collection does.
-/

namespace JsonCollections

namespace Replacement

theorem temporaryName_inj {name name' : String} (h : temporaryName name = temporaryName name') :
    name = name' :=
  (String.append_right_inj ".").mp ((String.append_left_inj ".tmp").mp h)

end Replacement

namespace Disk

variable {disk : Disk}

/-! ## Siblings -/

/-- Different targets have different siblings. -/
theorem place_inj_of_temporaryPath {p q : Path} {place place' beside : List String}
    (hp : p.fileName? ≠ none) (hq : q.fileName? ≠ none) (hplace : disk.place p = .ok place)
    (hplace' : disk.place q = .ok place') (hbeside : disk.place (temporaryPath p) = .ok beside)
    (hbeside' : disk.place (temporaryPath q) = .ok beside) : place = place' := by
  obtain ⟨name, hname⟩ := Option.ne_none_iff_exists'.mp hp
  obtain ⟨name', hname'⟩ := Option.ne_none_iff_exists'.mp hq
  obtain ⟨parts, hparts⟩ := Path.fileName?_eq_some_iff.mp hname
  obtain ⟨parts', hparts'⟩ := Path.fileName?_eq_some_iff.mp hname'
  obtain ⟨front, -, rfl⟩ := exists_front_of_place hparts hplace
  obtain ⟨front', -, rfl⟩ := exists_front_of_place hparts' hplace'
  have heq := (place_temporaryPath hname hplace hbeside).symm.trans
    (place_temporaryPath hname' hplace' hbeside')
  rw [Replacement.temporaryPlace_concat, Replacement.temporaryPlace_concat] at heq
  obtain ⟨hfront, hlast⟩ := List.append_inj' heq rfl
  rw [hfront, Replacement.temporaryName_inj (List.cons.inj hlast).1]

theorem exists_components_temporaryPath {p : Path} (hp : p.fileName? ≠ none) : ∃ parts name,
    (temporaryPath p).components = parts ++ [.name (Replacement.temporaryName name)] := by
  obtain ⟨name, hname⟩ := Option.ne_none_iff_exists'.mp hp
  obtain ⟨parts, hparts⟩ := Path.fileName?_eq_some_iff.mp hname
  exact ⟨parts, name, components_temporaryPath hparts⟩

section

variable {σ : Type} [Storage σ] {store : σ} {base file : Path} {urlPath : String}

/-- The file of a collection ends in `.json`. -/
theorem exists_components_of_resolve
    (h : Location.resolve store base urlPath = some file) : ∃ parts stem,
      file.components = parts ++ [.name (stem ++ Location.fileSuffix)] := by
  obtain ⟨names, stem, hfile⟩ := (Location.confined store base urlPath).inside h
  refine ⟨base.components ++ names.map .name, stem, ?_⟩
  rw [hfile, List.map_append, List.append_assoc]
  rfl

theorem not_sameAs_temporaryPath {p : Path} (hp : p.fileName? ≠ none)
    (h : Location.resolve store base urlPath = some file) :
    (temporaryPath p).sameAs file = false := by
  obtain ⟨parts, name, hsibling⟩ := exists_components_temporaryPath hp
  obtain ⟨parts', stem, hfile⟩ := exists_components_of_resolve h
  refine Bool.eq_false_iff.mpr fun hsame => ?_
  have heq := (Path.sameAs_iff _ _).mp hsame
  rw [hsibling, hfile] at heq
  obtain ⟨-, hlast⟩ := List.append_inj' heq rfl
  exact Listing.temporaryName_ne_fileSuffix name stem (Component.name.inj (List.cons.inj hlast).1)

/-- No sibling is the file of a collection. -/
theorem place_temporaryPath_ne {p : Path} (hp : p.fileName? ≠ none)
    (h : Location.resolve store base urlPath = some file) {place : List String}
    (hplace : disk.place file = .ok place) : disk.place (temporaryPath p) ≠ .ok place := by
  intro hbeside
  obtain ⟨parts, name, hsibling⟩ := exists_components_temporaryPath hp
  obtain ⟨parts', stem, hfile⟩ := exists_components_of_resolve h
  obtain ⟨front, -, rfl⟩ := exists_front_of_place hfile hplace
  obtain ⟨front', -, heq⟩ := exists_front_of_place hsibling hbeside
  obtain ⟨-, hlast⟩ := List.append_inj' heq rfl
  exact Listing.temporaryName_ne_fileSuffix name stem (List.cons.inj hlast).1.symm

end

/-! ## Points of a write -/

variable {fails : Stage → Bool} {left : ByteArray} {p : Path} {text : String}

/-- The disks that a write goes through, from the one before it to the one after it, while the
system refuses some stages. -/
def course (disk : Disk) (fails : Stage → Bool) (left : ByteArray) (p : Path) (text : String) :
    List Disk :=
  match disk.replacement fails left p text with
  | .ok job => (job.run disk.root).1.map fun root => { disk with root }
  | .error _ => [disk]

theorem head?_course (disk : Disk) (fails : Stage → Bool) (left : ByteArray) (p : Path)
    (text : String) : (disk.course fails left p text).head? = some disk := by
  unfold course
  cases disk.replacement fails left p text <;> rfl

theorem getLast?_course (disk : Disk) (fails : Stage → Bool) (left : ByteArray) (p : Path)
    (text : String) : (disk.course fails left p text).getLast? =
      some (disk.writeWith fails left p text).1 := by
  unfold course writeWith
  cases disk.replacement fails left p text with
  | error fault => rfl
  | ok job =>
    change ((job.run disk.root).1.map fun root => ({ disk with root } : Disk)).getLast? =
      some { disk with root := job.result disk.root }
    have hne : (job.run disk.root).1 ≠ [] := List.cons_ne_nil disk.root _
    rw [List.getLast?_map, Replacement.result, List.getLast?_eq_some_getLast hne]
    rfl

/-- At every point of a write what is at a place, if it is not that of the sibling, is as it was;
or the write is done, and the place is that of the target. -/
theorem look_of_mem_course {between : Disk} (h : between ∈ disk.course fails left p text)
    {q : List String}
    (hq : ∀ place, disk.place p = .ok place → q ≠ Replacement.temporaryPlace place) :
    between.root.look q = disk.root.look q ∨
      disk.writeWith fails left p text = (between, .ok ()) ∧ disk.place p = .ok q ∧
        between.root.look q = some (some text.toUTF8) := by
  unfold course at h
  split at h
  · rename_i job hjob
    obtain ⟨root, hroot, rfl⟩ := List.mem_map.mp h
    rcases Replacement.look_of_mem_run hroot with hsame | ⟨hdone, rfl⟩
    · obtain ⟨place, refuses, hplace, -, hparts⟩ := replacement_eq_ok hjob
      left
      rw [hparts] at hsame
      exact hsame q (hq place hplace)
    · have hwrite : disk.writeWith fails left p text =
          ({ disk with root := job.result disk.root }, .ok ()) := by
        simp only [writeWith, hjob, hdone]
      obtain ⟨place, hplace, -, hlook⟩ := look_of_written hwrite
      have hq := (hlook q).trans (if_neg (hq place hplace))
      by_cases htarget : q = place
      · rw [if_pos htarget] at hq
        exact .inr ⟨hwrite, htarget ▸ hplace, hq⟩
      · rw [if_neg htarget] at hq
        exact .inl hq
  · rw [List.mem_singleton.mp h]
    exact .inl rfl

/-- The directories stay at every point of a write. -/
theorem sameDirectories_of_mem_course {between : Disk}
    (h : between ∈ disk.course fails left p text) :
    ∃ root, between = { disk with root } ∧ disk.root.SameDirectories root := by
  unfold course at h
  split at h
  · obtain ⟨root, hroot, rfl⟩ := List.mem_map.mp h
    exact ⟨root, rfl, Replacement.sameDirectories_of_mem_run hroot⟩
  · exact ⟨disk.root, List.mem_singleton.mp h, .refl disk.root⟩

/-- Without a refusal a write into a directory is done, if there is room for the sibling and no
directory stands in the way. -/
theorem write_done {name : String} {place beside : List String}
    (hfails : ∀ stage, fails stage = false) (hname : p.fileName? = some name)
    (hasks : p.asksDirectory = false)
    (hlength : (Replacement.temporaryName name).utf8ByteSize ≤ Node.maxNameBytes)
    (hplace : disk.place p = .ok place) (hbeside : disk.place (temporaryPath p) = .ok beside)
    (hparent : disk.root.look place.dropLast = some none)
    (htarget : disk.root.look place ≠ some none) (hfree : disk.root.look beside ≠ some none) :
    (disk.writeWith fails left p text).2 = .ok () := by
  have hjob := replacement_of_name hfails hname hasks hplace hbeside left text
  obtain ⟨parts, hparts⟩ := Path.fileName?_eq_some_iff.mp hname
  obtain rfl := place_temporaryPath hname hplace hbeside
  obtain ⟨front, -, rfl⟩ := exists_front_of_place hparts hplace
  rw [List.dropLast_concat] at hparent
  rw [Replacement.temporaryPlace_concat] at hfree
  have hrun := Replacement.run_eq_none hparent hlength htarget hfree text left
  simp only [writeWith, hjob, hrun]

/-! ## Readers -/

theorem toOption_eq_some_iff {ε α : Type} {result : Except ε α} {a : α} :
    result.toOption = some a ↔ result = .ok a := by
  cases result with
  | ok b => exact ⟨fun h => congrArg Except.ok (Option.some.inj h), fun h => congrArg _ h⟩
  | error e => exact ⟨nofun, nofun⟩

/-- Where paths lead to is the same at every point of a write. -/
theorem toOption_place_of_mem_course {between : Disk}
    (h : between ∈ disk.course fails left p text) (q : Path) :
    (between.place q).toOption = (disk.place q).toOption := by
  obtain ⟨root, rfl, hsame⟩ := sameDirectories_of_mem_course h
  ext place
  rw [toOption_eq_some_iff, toOption_eq_some_iff]
  exact ⟨place_eq_ok fun q => (hsame q).symm, place_eq_ok hsame⟩

/-- What is read, if anything, is the content of the file that the path leads to. -/
theorem toOption_read (disk : Disk) (q : Path) : (Storage.read disk q).toOption =
    if q.asksDirectory then none
    else ((disk.place q).toOption.bind disk.contentAt?).bind String.fromUTF8? := by
  ext s
  rw [toOption_eq_some_iff, read_eq_ok_iff]
  cases q.asksDirectory with
  | true => exact ⟨nofun, nofun⟩
  | false =>
    simp only [true_and, Bool.false_eq_true, if_false, Option.bind_eq_some_iff, contentAt?,
      toOption_eq_some_iff, Option.join_eq_some_iff]
    constructor
    · rintro ⟨place, content, hplace, hlook, htext⟩
      exact ⟨content, ⟨place, hplace, hlook⟩, htext⟩
    · rintro ⟨content, ⟨place, hplace, hlook⟩, htext⟩
      exact ⟨place, content, hplace, hlook, htext⟩

/-- Who reads at some point of a write, and not the sibling, reads what could be read before, or the
whole text. -/
theorem toOption_read_of_mem_course {between : Disk}
    (h : between ∈ disk.course fails left p text) {q : Path}
    (hq : ∀ place, disk.place p = .ok place →
      disk.place q ≠ .ok (Replacement.temporaryPlace place)) :
    (Storage.read between q).toOption = (Storage.read disk q).toOption ∨
      (Storage.read between q).toOption = some text := by
  rw [toOption_read, toOption_read, toOption_place_of_mem_course h]
  cases hplace : disk.place q with
  | error fault => exact .inl rfl
  | ok place =>
    have hsibling : ∀ target, disk.place p = .ok target →
        place ≠ Replacement.temporaryPlace target := by
      rintro target htarget rfl
      exact hq target htarget hplace
    rcases look_of_mem_course h hsibling with hsame | ⟨-, -, hnew⟩
    · have hcontent : between.contentAt? place = disk.contentAt? place :=
        congrArg Option.join hsame
      left
      change (if q.asksDirectory then none
          else (between.contentAt? place).bind String.fromUTF8?) = _
      rw [hcontent]
      rfl
    · cases q.asksDirectory with
      | true => exact .inl rfl
      | false =>
        right
        change (between.root.look place).join.bind String.fromUTF8? = some text
        rw [hnew]
        exact fromUTF8?_toUTF8 text

/-! ## Whole writes -/

/-- What a write does, and what can be seen of it on the way. -/
structure AllOrNothing (disk : Disk) (fails : Stage → Bool) (left : ByteArray) (p : Path)
    (text : String) : Prop where
  /-- it goes from the disk before it to the disk after it -/
  ends : (disk.course fails left p text).head? = some disk ∧
    (disk.course fails left p text).getLast? = some (disk.writeWith fails left p text).1
  /-- at every point the target is as it was, or has the whole text -/
  target : ∀ between ∈ disk.course fails left p text, ∀ place, disk.place p = .ok place →
    between.root.look place = disk.root.look place ∨
      between.root.look place = some (some text.toUTF8)
  /-- if the write fails, the target is as it was at every point -/
  failed : ∀ fault, (disk.writeWith fails left p text).2 = .error fault →
    ∀ between ∈ disk.course fails left p text, ∀ place, disk.place p = .ok place →
      between.root.look place = disk.root.look place
  /-- if the write succeeds, nothing was refused, the target has the text and no sibling is left -/
  done : (disk.writeWith fails left p text).2 = .ok () → (∀ stage, fails stage = false) ∧
    ∃ place, disk.place p = .ok place ∧
      (disk.writeWith fails left p text).1.root.look place = some (some text.toUTF8) ∧
      (disk.writeWith fails left p text).1.root.look (Replacement.temporaryPlace place) = none
  /-- it does succeed if nothing is refused or in the way -/
  succeeds : (∀ stage, fails stage = false) → p.asksDirectory = false → ∀ name place beside,
    p.fileName? = some name →
    (Replacement.temporaryName name).utf8ByteSize ≤ Node.maxNameBytes →
      disk.place p = .ok place → disk.place (temporaryPath p) = .ok beside →
        disk.root.look place.dropLast = some none → disk.root.look place ≠ some none →
          disk.root.look beside ≠ some none → (disk.writeWith fails left p text).2 = .ok ()
  /-- at every point all other places are as they were -/
  others : ∀ between ∈ disk.course fails left p text, ∀ q,
    (∀ place, disk.place p = .ok place → q ≠ place ∧ q ≠ Replacement.temporaryPlace place) →
      between.root.look q = disk.root.look q
  /-- at every point paths lead to the same places -/
  places : ∀ between ∈ disk.course fails left p text, ∀ q,
    (between.place q).toOption = (disk.place q).toOption
  /-- whatever is read at some point could be read before, or is the whole text -/
  readers : ∀ between ∈ disk.course fails left p text, ∀ q,
    (∀ place, disk.place p = .ok place → disk.place q ≠ .ok (Replacement.temporaryPlace place)) →
      (Storage.read between q).toOption = (Storage.read disk q).toOption ∨
        (Storage.read between q).toOption = some text
  /-- the path of the sibling leads to the place beside the target -/
  sibling : p.fileName? ≠ none → ∀ place beside, disk.place p = .ok place →
    disk.place (temporaryPath p) = .ok beside → beside = Replacement.temporaryPlace place
  /-- another target has another sibling -/
  distinct : p.fileName? ≠ none → ∀ q : Path, q.fileName? ≠ none → ∀ place place' beside,
    disk.place p = .ok place → disk.place q = .ok place' →
      disk.place (temporaryPath p) = .ok beside → disk.place (temporaryPath q) = .ok beside →
        place = place'
  /-- the sibling is the file of no collection -/
  apart : p.fileName? ≠ none → ∀ {σ : Type} [Storage σ] (store : σ) (base : Path)
    (urlPath : String) (file : Path), Location.resolve store base urlPath = some file →
      (temporaryPath p).sameAs file = false ∧
        ∀ place, disk.place file = .ok place → disk.place (temporaryPath p) ≠ .ok place

/-- The target is not its own sibling. -/
theorem ne_temporaryPlace_of_place {place : List String} (hplace : disk.place p = .ok place)
    (place' : List String) (hplace' : disk.place p = .ok place') :
    place ≠ Replacement.temporaryPlace place' := by
  obtain rfl : place = place' := Except.ok.inj (hplace.symm.trans hplace')
  exact (Replacement.temporaryPlace_ne place).symm

/-- A write is done as a whole or not at all. -/
theorem allOrNothing (disk : Disk) (fails : Stage → Bool) (left : ByteArray) (p : Path)
    (text : String) : AllOrNothing disk fails left p text where
  ends := ⟨head?_course disk fails left p text, getLast?_course disk fails left p text⟩
  target between hbetween place hplace :=
    (look_of_mem_course hbetween (ne_temporaryPlace_of_place hplace)).imp_right fun h => h.2.2
  failed fault hfault between hbetween place hplace := by
    rcases look_of_mem_course hbetween (ne_temporaryPlace_of_place hplace) with
      hsame | ⟨hdone, -⟩
    · exact hsame
    · rw [hdone] at hfault
      cases hfault
  done hdone := by
    obtain ⟨place, hplace, hfails, hlook⟩ := look_of_written (Prod.ext rfl hdone)
    refine ⟨hfails, place, hplace, ?_, ?_⟩
    · rw [hlook, if_neg (ne_temporaryPlace_of_place hplace place hplace), if_pos rfl]
    · rw [hlook, if_pos rfl]
  succeeds hfails hasks _ _ _ hname hlength hplace hbeside hparent htarget hfree :=
    write_done hfails hname hasks hlength hplace hbeside hparent htarget hfree
  others between hbetween q hq := by
    rcases look_of_mem_course hbetween fun place hplace => (hq place hplace).2 with
      hsame | ⟨-, hplace, -⟩
    · exact hsame
    · exact absurd rfl (hq q hplace).1
  places between hbetween q := toOption_place_of_mem_course hbetween q
  readers between hbetween q hq := toOption_read_of_mem_course hbetween hq
  sibling hp place beside hplace hbeside := by
    obtain ⟨name, hname⟩ := Option.ne_none_iff_exists'.mp hp
    exact place_temporaryPath hname hplace hbeside
  distinct hp q hq place place' beside := place_inj_of_temporaryPath hp hq
  apart hp _ _ store base urlPath file hfile :=
    ⟨not_sameAs_temporaryPath hp hfile, fun place => place_temporaryPath_ne hp hfile⟩

/-- An old sibling is no obstacle.  If flushing the new one is refused, it is removed. -/
example :
    let old : Disk :=
      { root := .directory [("a", .file "old".toUTF8), (".a.tmp", .file "left".toUTF8)] }
    (old.course (· == .flush) ByteArray.empty (.ofText "a") "new").map
        (fun disk => (disk.contentAt? ["a"], disk.contentAt? [".a.tmp"])) =
      [(some "old".toUTF8, some "left".toUTF8), (some "old".toUTF8, some "".toUTF8),
        (some "old".toUTF8, some "new".toUTF8), (some "old".toUTF8, some "new".toUTF8),
        (some "old".toUTF8, none)] := by
  decide +kernel

end Disk

end JsonCollections
