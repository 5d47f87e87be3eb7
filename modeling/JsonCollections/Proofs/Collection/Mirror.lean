import JsonCollections.Proofs.Collection.Shelves

set_option autoImplicit false

/-!
# Files in memory that mirror a directory

Memory with the texts of a stocked disk *mirrors* it: the directories that memory has only as
beginnings of paths are those of the disk (`isDirectory_eq`), files are read with the same texts or
are missing in both (`read_eq`), and replacing a file succeeds in both and keeps them so
(`write_eq`).
-/

namespace JsonCollections

/-! ## Paths -/

namespace Path

theorem isAbove_iff (p q : Path) :
    p.isAbove q = true ↔ p.components ≠ q.components ∧ p.components <+: q.components := by
  rw [isAbove, Bool.and_eq_true, Bool.not_eq_true', ← Bool.not_eq_true, sameAs_iff,
    List.isPrefixOf_iff_prefix]

theorem map_name_inj {names names' : List String}
    (h : names.map Component.name = names'.map .name) : names = names' :=
  List.map_injective_iff.mpr (fun _ _ => Component.name.inj) h

theorem prefix_of_map_name {names names' : List String}
    (h : names.map Component.name <+: names'.map .name) : names <+: names' := by
  obtain ⟨front, hfront, heq⟩ := List.prefix_map_iff.mp h
  rwa [map_name_inj heq]

end Path

namespace Memory

theorem get?_congr (store : Memory) {p q : Path} (h : p.components = q.components) :
    store.get? p = store.get? q := by
  unfold get? Path.sameAs
  rw [h]

theorem exists_mem_of_get? {store : Memory} {p : Path} {text : String}
    (h : store.get? p = some text) :
    ∃ entry ∈ store.files, entry.1.components = p.components ∧ entry.2 = text := by
  obtain ⟨entry, hentry, htext⟩ := Option.map_eq_some_iff.mp h
  have hsame : entry.1.sameAs p = true :=
    @List.find?_some _ (fun stored : Path × String => stored.1.sameAs p) _ _ hentry
  exact ⟨entry, List.mem_of_find?_eq_some hentry, (Path.sameAs_iff _ _).mp hsame, htext⟩

theorem exists_get?_of_mem {store : Memory} {entry : Path × String} (h : entry ∈ store.files) :
    ∃ text, store.get? entry.1 = some text := by
  refine Option.isSome_iff_exists.mp (Option.isSome_map.trans ?_)
  exact List.find?_isSome.mpr ⟨entry, h, Path.sameAs_refl _⟩

/-- A path leads to a directory in memory if a file is stored below it. -/
theorem isDirectory_iff (store : Memory) (p : Path) : Storage.isDirectory store p = true ↔
    ∃ q text, store.get? q = some text ∧ p.isAbove q = true := by
  change store.files.any (fun entry => p.isAbove entry.1) = true ↔ _
  rw [List.any_eq_true]
  constructor
  · rintro ⟨entry, hentry, habove⟩
    obtain ⟨text, htext⟩ := exists_get?_of_mem hentry
    exact ⟨entry.1, text, htext, habove⟩
  · rintro ⟨q, text, htext, habove⟩
    obtain ⟨entry, hentry, hcomponents, -⟩ := exists_mem_of_get? htext
    refine ⟨entry, hentry, ?_⟩
    rwa [Path.isAbove_iff, hcomponents, ← Path.isAbove_iff]

end Memory

/-! ## Mirrors -/

/-- Memory has the texts of the files below the base directory, each under every path that has its
components, and takes writes. -/
structure Memory.Mirrors (memory : Memory) (disk : Disk) (base : Path) (place : List String) :
    Prop where
  enabled : memory.disabled = false
  get?_iff : ∀ p text, memory.get? p = some text ↔ ∃ names content,
    p.components = base.components ++ names.map .name ∧
      disk.root.look (place ++ names) = some (some content) ∧ String.fromUTF8? content = some text

section

variable {memory : Memory} {disk : Disk} {base p : Path} {place names : List String}
  (hstocked : disk.Stocked base place) (hmirrors : memory.Mirrors disk base place)
  (hp : p.components = base.components ++ names.map .name) (hfits : p.WithinLimits)

include hstocked hmirrors hp

/-- Memory has a text for every file on the disk. -/
theorem get?_of_look {content : ByteArray}
    (hlook : disk.root.look (place ++ names) = some (some content)) :
    ∃ text, String.fromUTF8? content = some text ∧ memory.get? p = some text := by
  obtain ⟨-, text, htext⟩ := hstocked.files names content hlook
  exact ⟨text, htext, (hmirrors.get?_iff p text).mpr ⟨names, content, hp, hlook, htext⟩⟩

include hfits

/-- Below the base directory both stores have the same directories. -/
theorem isDirectory_eq (hne : names ≠ []) :
    Storage.isDirectory memory p = Storage.isDirectory disk p := by
  rw [Bool.eq_iff_iff, Memory.isDirectory_iff, Disk.isDirectory_iff]
  have hplace := Disk.place_below hstocked.place_base hp hfits
  constructor
  · rintro ⟨q, text, htext, habove⟩
    obtain ⟨found, content, hq, hlook, -⟩ := (hmirrors.get?_iff q text).mp htext
    obtain ⟨hother, hbefore⟩ := (Path.isAbove_iff p q).mp habove
    rw [hp, hq, List.prefix_append_right_inj] at hbefore
    obtain ⟨below, rfl⟩ := Path.prefix_of_map_name hbefore
    cases below with
    | nil => exact absurd (hp.trans (hq.trans (by rw [List.append_nil])).symm) hother
    | cons name rest =>
      refine ⟨place ++ names, hplace, @Node.look_of_longer _ _ rest name ?_⟩
      rw [List.append_assoc, hlook]
      nofun
  · rintro ⟨found, hfound, hlook⟩
    obtain rfl := Except.ok.inj (hplace.symm.trans hfound)
    obtain ⟨name, rest, content, hfile⟩ := hstocked.exists_file hne hlook
    obtain ⟨hshelved, -⟩ := hstocked.files _ content hfile
    have hq := Path.components_descend base hshelved.innerComponent?
    obtain ⟨text, -, htext⟩ := get?_of_look hstocked hmirrors hq hfile
    refine ⟨_, text, htext, (Path.isAbove_iff p _).mpr ?_⟩
    rw [hp, hq, List.map_append, ← List.append_assoc]
    exact ⟨fun heq => List.cons_ne_nil _ _ (List.self_eq_append_right.mp heq),
      List.prefix_append _ _⟩

end

section

variable {memory : Memory} {disk : Disk} {base p : Path} {place names : List String}
  (hstocked : disk.Stocked base place) (hfiled : Location.Filed base p names)

include hstocked hfiled

/-- The files of collections are read with the same texts, or are missing in both stores. -/
theorem read_eq (hmirrors : memory.Mirrors disk base place) :
    Storage.read memory p = Storage.read disk p := by
  have hp := hfiled.components
  have hshelved := hfiled.shelved
  have hplace := Disk.place_below hstocked.place_base hp hfiled.fits
  cases hwalk : disk.root.walk (place ++ names) with
  | ok node =>
    cases node with
    | file content =>
      have hlook := Node.look_eq_file_iff.mpr hwalk
      obtain ⟨text, htext, hget⟩ := get?_of_look hstocked hmirrors hp hlook
      rw [Memory.read_eq_ok_iff.mpr hget]
      exact (Disk.read_eq_ok_iff.mpr
        ⟨hfiled.not_directory, place ++ names, content, hplace, hlook, htext⟩).symm
    | directory entries =>
      -- a directory does not have the name of a file
      obtain ⟨hnames, -⟩ := hstocked.directories names hshelved.ne_nil
        (Node.look_eq_directory_iff.mpr ⟨entries, hwalk⟩)
      obtain ⟨front, stem, rfl, -⟩ := hshelved
      exact absurd (hnames _ List.mem_concat_self) (Listing.not_isName_fileSuffix stem)
  | error fault =>
    have hnone : memory.get? p = none := by
      refine Option.eq_none_iff_forall_ne_some.mpr fun text htext => ?_
      obtain ⟨found, content, hfound, hlook, -⟩ := (hmirrors.get?_iff p text).mp htext
      rw [hp, List.append_right_inj] at hfound
      rw [← Path.map_name_inj hfound, Node.look_eq_file_iff, hwalk] at hlook
      cases hlook
    have hlength : ∀ name ∈ names, name.utf8ByteSize ≤ Node.maxNameBytes := by
      intro name hname
      refine hfiled.fits.names_le name ?_
      rw [hp]
      exact List.mem_append_right _ (List.mem_map_of_mem hname)
    obtain rfl := hstocked.eq_missing hshelved hlength hwalk
    have hfind : disk.find p = .error .missing := by
      rw [Disk.find, hplace]
      change (disk.root.walk (place ++ names)).bind _ = _
      rw [hwalk]
      rfl
    simp only [Storage.read, hnone, Disk.readText, hfind]

end

/-! ## Writing -/

/-- Memory stays a mirror when the file gets the same text in both. -/
theorem Memory.Mirrors.replaced {memory memory' : Memory} {disk disk' : Disk} {base p : Path}
    {place names : List String} {text : String} (hmirrors : memory.Mirrors disk base place)
    (hnew : ∀ q, disk'.root.look q =
      if q = place ++ names then some (some text.toUTF8) else disk.root.look q)
    (hp : p.components = base.components ++ names.map .name) (henabled : memory'.disabled = false)
    (hput : ∀ q, memory'.get? q = if p.sameAs q then some text else memory.get? q) :
    memory'.Mirrors disk' base place := by
  refine ⟨henabled, fun q other => ?_⟩
  rw [hput]
  by_cases hsame : p.sameAs q = true
  · rw [if_pos hsame]
    rw [Path.sameAs_iff, hp] at hsame
    constructor
    · rintro ⟨⟩
      exact ⟨names, text.toUTF8, hsame.symm, (hnew _).trans (if_pos rfl),
        Disk.fromUTF8?_toUTF8 text⟩
    · rintro ⟨found, bytes, hq, hlook, hother⟩
      rw [hq, List.append_right_inj] at hsame
      rw [← Path.map_name_inj hsame, hnew, if_pos rfl] at hlook
      cases hlook
      rw [← hother, Disk.fromUTF8?_toUTF8]
  · rw [if_neg hsame, hmirrors.get?_iff]
    rw [Path.sameAs_iff, hp] at hsame
    refine exists₂_congr fun found bytes => and_congr_right fun hq => ?_
    have hne : place ++ found ≠ place ++ names := by
      intro heq
      rw [hq, List.append_cancel_left heq] at hsame
      exact hsame rfl
    rw [hnew, if_neg hne]

/-- Memory and the disk have gone on together: memory mirrors a stocked disk, no file is gone, and
no place has changed its kind. -/
structure MoveTogether (base : Path) (place : List String) (memory : Memory) (disk : Disk)
    (memory' : Memory) (disk' : Disk) : Prop where
  stocked : disk'.Stocked base place
  mirrors : memory'.Mirrors disk' base place
  files_stay : ∀ p, (memory.get? p).isSome = true → (memory'.get? p).isSome = true
  places_stay : ∀ q,
    (disk'.root.look q).map Option.isSome = (disk.root.look q).map Option.isSome

section

variable {memory : Memory} {disk : Disk} {base p : Path} {place names : List String}
  (hstocked : disk.Stocked base place) (hmirrors : memory.Mirrors disk base place)

include hstocked hmirrors

theorem MoveTogether.refl : MoveTogether base place memory disk memory disk :=
  ⟨hstocked, hmirrors, fun _ h => h, fun _ => rfl⟩

/-- The same text is written to both stores. -/
theorem write_eq (hfiled : Location.Filed base p names) (hold : (memory.get? p).isSome = true)
    (text : String) : ∃ memory' disk', Storage.write memory p text = (memory', .ok ()) ∧
      Storage.write disk p text = (disk', .ok ()) ∧
        MoveTogether base place memory disk memory' disk' := by
  obtain ⟨old, hold⟩ := Option.isSome_iff_exists.mp hold
  obtain ⟨content, hlook⟩ : ∃ content, disk.root.look (place ++ names) = some (some content) := by
    obtain ⟨found, content, hp, hlook, -⟩ := (hmirrors.get?_iff p old).mp hold
    rw [hfiled.components, List.append_right_inj] at hp
    exact ⟨content, Path.map_name_inj hp ▸ hlook⟩
  obtain ⟨disk', hwrite, hplace, hnew⟩ := hstocked.exists_write hfiled hlook text
  have hget : ∀ q, ({ memory.put p text with writes := memory.writes + 1 } : Memory).get? q =
      if p.sameAs q then some text else memory.get? q := fun q => memory.get?_put p q text
  refine ⟨{ memory.put p text with writes := memory.writes + 1 }, disk', ?_, hwrite,
    Disk.Stocked.replaced hlook hnew hstocked hplace,
    hmirrors.replaced hnew hfiled.components hmirrors.enabled hget, fun q hq => ?_,
    Disk.isSome_look_replaced hlook hnew⟩
  · rw [Memory.write_eq, hmirrors.enabled]
    rfl
  · rw [hget]
    split
    · rfl
    · exact hq

end

end JsonCollections
