import JsonCollections.Proofs.Path
import JsonCollections.Proofs.Storage.Disk
import Mathlib.Data.String.Basic

set_option autoImplicit false

/-!
# What a walk through a directory finds

A walk finds the files below a node and nothing else (`mem_filesFrom_iff`), each once and in the
order of the names that lead to them (`pairwise_filesFrom`): the entries of each directory are in
order, and what is below an entry begins with its name.
-/

namespace JsonCollections

namespace Node

/-! ## Names -/

/-- A name of an entry is a component of a path. -/
theorem innerComponent?_of_isName {name : String} (h : isName name = true) :
    Path.innerComponent? name = some (.name name) := by
  simp only [isName, Bool.and_eq_true, bne_iff_ne, ne_eq] at h
  obtain ⟨⟨⟨⟨⟨hempty, hdot⟩, hup⟩, -⟩, -⟩, -⟩ := h
  rw [Path.innerComponent?, if_neg (not_or.mpr ⟨hempty, hdot⟩), if_neg hup]

/-- A name of an entry is not cut by slashes. -/
theorem slash_not_mem_of_isName {name : String} (h : isName name = true) : '/' ∉ name.toList := by
  simp only [isName, Bool.and_eq_true, Bool.not_eq_true', List.contains_eq_mem,
    decide_eq_false_iff_not] at h
  exact h.1.1.2

/-! ## Trees -/

/-- What holds of files, and of a directory if it holds of its entries, holds of every node. -/
theorem inductionOnEntries {P : Node → Prop} (node : Node) (file : ∀ content, P (.file content))
    (directory : ∀ entries : List (String × Node), (∀ entry ∈ entries, P entry.2) →
      P (.directory entries)) : P node :=
  @Node.rec P (fun entries => ∀ entry ∈ entries, P entry.2) (fun entry => P entry.2) file directory
    (List.forall_mem_nil _) (fun _ _ hentry hrest => List.forall_mem_cons.mpr ⟨hentry, hrest⟩)
    (fun _ _ h => h) node

theorem wellFormedEntries_iff {entries : List (String × Node)} : WellFormedEntries entries ↔
    ∀ entry ∈ entries, isName entry.1 = true ∧ entry.2.WellFormed := by
  induction entries with
  | nil => exact ⟨fun _ => List.forall_mem_nil _, fun _ => trivial⟩
  | cons entry rest ih => rw [WellFormedEntries, List.forall_mem_cons, ih, and_assoc]

theorem wellFormed_directory_iff {entries : List (String × Node)} :
    (directory entries).WellFormed ↔ (Entries.keys entries).Nodup ∧
      ∀ entry ∈ entries, isName entry.1 = true ∧ entry.2.WellFormed := by
  rw [WellFormed, wellFormedEntries_iff]

/-- A way through a tree goes step by step. -/
theorem walk_append (node : Node) (front rest : List String) :
    node.walk (front ++ rest) = (node.walk front).bind (·.walk rest) := by
  induction front generalizing node with
  | nil => cases node <;> rfl
  | cons name front ih =>
    cases node with
    | file content => rfl
    | directory entries =>
      rw [List.cons_append, walk, walk]
      split
      · rfl
      · cases Entries.get? entries name with
        | none => rfl
        | some node => exact ih node

/-- A step from a directory leads to one of its entries. -/
theorem walk_cons_eq_ok_iff {entries : List (String × Node)} (h : (directory entries).WellFormed)
    {name : String} {rest : List String} {found : Node} :
    (directory entries).walk (name :: rest) = .ok found ↔
      ∃ node, (name, node) ∈ entries ∧ node.walk rest = .ok found := by
  obtain ⟨hkeys, hentries⟩ := wellFormed_directory_iff.mp h
  rw [walk]
  constructor
  · intro hwalk
    split at hwalk
    · cases hwalk
    · split at hwalk
      · exact ⟨_, Entries.mem_of_get?_eq_some ‹_›, hwalk⟩
      · cases hwalk
  · rintro ⟨node, hmem, hwalk⟩
    have hname := (hentries _ hmem).1
    simp only [isName, Bool.and_eq_true, decide_eq_true_eq] at hname
    rw [if_neg (Nat.not_lt.mpr hname.2), Entries.get?_of_mem hkeys hmem]
    exact hwalk

/-- The nodes of a well-formed tree are well-formed, and the names that lead to them are names. -/
theorem wellFormed_of_walk {node found : Node} (h : node.WellFormed) {names : List String}
    (hwalk : node.walk names = .ok found) :
    found.WellFormed ∧ ∀ name ∈ names, isName name = true := by
  induction names generalizing node with
  | nil =>
    have heq : node = found := by
      cases node <;> exact Except.ok.inj hwalk
    exact ⟨heq ▸ h, fun _ hmem => nomatch hmem⟩
  | cons name rest ih =>
    cases node with
    | file content => cases hwalk
    | directory entries =>
      obtain ⟨node, hmem, hwalk⟩ := (walk_cons_eq_ok_iff h).mp hwalk
      obtain ⟨hname, hnode⟩ := (wellFormed_directory_iff.mp h).2 _ hmem
      obtain ⟨hfound, hrest⟩ := ih hnode hwalk
      exact ⟨hfound, List.forall_mem_cons.mpr ⟨hname, hrest⟩⟩

/-! ## Files below a node -/

variable {opens : List String → Bool} {above : List String}

theorem branches_eq_map (entries : List (String × Node)) : branches opens above entries =
    entries.map fun entry => (entry.1, filesFrom opens (above ++ [entry.1]) entry.2) := by
  induction entries with
  | nil => rfl
  | cons entry rest ih => rw [branches, ih, List.map_cons]

theorem mem_filesFrom_directory {entries : List (String × Node)} {names : List String} :
    names ∈ filesFrom opens above (.directory entries) ↔ opens above = true ∧
      ∃ entry ∈ entries, names ∈ filesFrom opens (above ++ [entry.1]) entry.2 := by
  rw [filesFrom, branches_eq_map]
  split
  · rename_i hopens
    simp only [List.mem_flatMap, List.mem_mergeSort, List.mem_map, hopens, true_and]
    constructor
    · rintro ⟨_, ⟨entry, hentry, rfl⟩, hnames⟩
      exact ⟨entry, hentry, hnames⟩
    · rintro ⟨entry, hentry, hnames⟩
      exact ⟨_, ⟨entry, hentry, rfl⟩, hnames⟩
  · rename_i hopens
    exact ⟨nofun, fun h => absurd h.1 hopens⟩

/-- Every directory that is gone through on the way down opens. -/
def OpensAlong (opens : List String → Bool) (above rest : List String) : Prop :=
  ∀ front, front <+: rest → front ≠ rest → opens (above ++ front) = true

theorem opensAlong_nil : OpensAlong opens above [] :=
  fun _ hfront hne => absurd (List.prefix_nil.mp hfront) hne

theorem opensAlong_cons {name : String} {rest : List String} :
    OpensAlong opens above (name :: rest) ↔
      opens above = true ∧ OpensAlong opens (above ++ [name]) rest := by
  constructor
  · intro h
    refine ⟨?_, fun front hfront hne => ?_⟩
    · exact List.append_nil above ▸ h [] List.nil_prefix (List.cons_ne_nil name rest).symm
    · rw [List.append_assoc]
      exact h (name :: front) (List.prefix_cons_inj name |>.mpr hfront) fun heq =>
        hne (List.cons.inj heq).2
  · rintro ⟨hopens, hrest⟩ front hfront hne
    rcases List.prefix_cons_iff.mp hfront with rfl | ⟨front, rfl, hbelow⟩
    · rwa [List.append_nil]
    · have hopen := hrest front hbelow fun heq => hne (heq ▸ rfl)
      rwa [List.append_assoc] at hopen

/-- A walk finds the files below a node that can be reached through directories that open. -/
theorem mem_filesFrom_iff {node : Node} (h : node.WellFormed) {names : List String} :
    names ∈ filesFrom opens above node ↔ ∃ rest content, names = above ++ rest ∧
      node.walk rest = .ok (.file content) ∧ OpensAlong opens above rest := by
  induction node using inductionOnEntries generalizing above with
  | file content =>
    rw [filesFrom, List.mem_singleton]
    constructor
    · rintro rfl
      exact ⟨[], content, (List.append_nil names).symm, rfl, opensAlong_nil⟩
    · rintro ⟨rest, found, rfl, hwalk, -⟩
      cases rest with
      | nil => exact List.append_nil above
      | cons name rest => cases hwalk
  | directory entries ih =>
    have hentries := (wellFormed_directory_iff.mp h).2
    rw [mem_filesFrom_directory]
    constructor
    · rintro ⟨hopens, entry, hentry, hnames⟩
      obtain ⟨rest, content, rfl, hwalk, hrest⟩ :=
        (ih entry hentry (hentries entry hentry).2).mp hnames
      exact ⟨entry.1 :: rest, content, List.append_assoc _ _ _,
        (walk_cons_eq_ok_iff h).mpr ⟨entry.2, hentry, hwalk⟩, opensAlong_cons.mpr ⟨hopens, hrest⟩⟩
    · rintro ⟨rest, content, rfl, hwalk, hrest⟩
      cases rest with
      | nil => cases hwalk
      | cons name rest =>
        obtain ⟨node, hentry, hwalk⟩ := (walk_cons_eq_ok_iff h).mp hwalk
        obtain ⟨hopens, hrest⟩ := opensAlong_cons.mp hrest
        exact ⟨hopens, (name, node), hentry, (ih _ hentry (hentries _ hentry).2).mpr
          ⟨rest, content, (List.append_assoc above [name] rest).symm, hwalk, hrest⟩⟩

/-- Entries of a directory in order have names in strict order. -/
theorem pairwise_mergeSort_branches {entries : List (String × Node)}
    (hkeys : (Entries.keys entries).Nodup) :
    ((branches opens above entries).mergeSort fun a b => decide (a.1 ≤ b.1)).Pairwise
      fun a b => a.1 < b.1 := by
  have htrans : ∀ a b c : String × List (List String), decide (a.1 ≤ b.1) = true →
      decide (b.1 ≤ c.1) = true → decide (a.1 ≤ c.1) = true := by
    simp only [decide_eq_true_eq]
    exact fun a b c => String.le_trans
  have htotal : ∀ a b : String × List (List String),
      (decide (a.1 ≤ b.1) || decide (b.1 ≤ a.1)) = true := by
    simp only [Bool.or_eq_true, decide_eq_true_eq]
    exact fun a b => String.le_total a.1 b.1
  have hsorted := List.pairwise_mergeSort htrans htotal (branches opens above entries)
  have hnodup : ((branches opens above entries).map Prod.fst).Nodup := by
    rw [branches_eq_map, List.map_map]
    exact hkeys
  have hdistinct := List.pairwise_map.mp
    ((((List.mergeSort_perm _ fun a b => decide (a.1 ≤ b.1)).map Prod.fst).nodup_iff).mpr hnodup)
  refine (hsorted.and hdistinct).imp fun {a b} hab => ?_
  exact Std.lt_of_le_of_ne (of_decide_eq_true hab.1) hab.2

/-- A walk finds files in the order of the names that lead to them, and none twice. -/
theorem pairwise_filesFrom {node : Node} (h : node.WellFormed) :
    (filesFrom opens above node).Pairwise (· < ·) := by
  induction node using inductionOnEntries generalizing above with
  | file content => exact List.pairwise_singleton _ _
  | directory entries ih =>
    obtain ⟨hkeys, hentries⟩ := wellFormed_directory_iff.mp h
    have hbranch : ∀ branch ∈
        (branches opens above entries).mergeSort fun a b => decide (a.1 ≤ b.1),
        ∃ entry ∈ entries, branch = (entry.1, filesFrom opens (above ++ [entry.1]) entry.2) := by
      intro branch hbranch
      rw [List.mem_mergeSort, branches_eq_map] at hbranch
      obtain ⟨entry, hentry, rfl⟩ := List.mem_map.mp hbranch
      exact ⟨entry, hentry, rfl⟩
    rw [filesFrom]
    split
    · refine List.pairwise_flatMap.mpr ⟨fun branch hmem => ?_, ?_⟩
      · obtain ⟨entry, hentry, rfl⟩ := hbranch branch hmem
        exact ih entry hentry (hentries entry hentry).2
      · refine (pairwise_mergeSort_branches hkeys).imp_of_mem ?_
        intro a b ha hb hlt x hx y hy
        obtain ⟨first, hfirst, rfl⟩ := hbranch a ha
        obtain ⟨second, hsecond, rfl⟩ := hbranch b hb
        obtain ⟨xs, -, rfl, -⟩ := (mem_filesFrom_iff (hentries first hfirst).2).mp hx
        obtain ⟨ys, -, rfl, -⟩ := (mem_filesFrom_iff (hentries second hsecond).2).mp hy
        rw [List.append_assoc, List.append_assoc]
        exact List.append_left_lt (List.cons_lt_cons_iff.mpr (.inl hlt))
    · exact .nil

end Node

namespace Disk

/-! ## Files in a directory -/

/-- A file of this name is in the directory at a path. -/
def HasFile (disk : Disk) (directory : Path) (name : String) : Prop :=
  ∃ place content, disk.place directory = .ok place ∧
    disk.root.walk (place ++ [name]) = .ok (.file content)

/-- The place of a name in a directory comes after that of the directory, which has a shorter
path. -/
theorem place_child {disk : Disk} {p : Path} {name : String}
    (hname : Path.innerComponent? name = some (.name name)) {place : List String}
    (h : disk.place (p.child name) = .ok place) :
    ∃ above, disk.place p = .ok above ∧ place = above ++ [name] := by
  obtain ⟨rest, htext⟩ := Path.exists_text_child p name
  unfold Disk.place at h ⊢
  rw [htext, Path.components_child p hname, follow_append] at h
  split at h
  · cases h
  · rename_i hnull
    split at h
    · cases h
    · rename_i hlength
      rw [String.toList_append, List.contains_append, Bool.or_eq_true, not_or] at hnull
      rw [String.utf8ByteSize_append] at hlength
      have hshorter : ¬ maxPathBytes < p.text.utf8ByteSize := by omega
      rw [if_neg hnull.1, if_neg hshorter]
      obtain ⟨above, habove, h⟩ := bind_eq_ok h
      exact ⟨above, habove, (Except.ok.inj h).symm⟩

/-- What a name leads on from is a directory. -/
theorem isDirectory_of_walk {disk : Disk} {p : Path} {place : List String} {name : String}
    {found : Node} (hplace : disk.place p = .ok place)
    (hwalk : disk.root.walk (place ++ [name]) = .ok found) :
    Storage.isDirectory disk p = true := by
  rw [Node.walk_append] at hwalk
  obtain ⟨node, hnode, hstep⟩ := bind_eq_ok hwalk
  refine (isDirectory_iff disk p).mpr ⟨place, hplace, ?_⟩
  cases node with
  | file content => cases hstep
  | directory entries => exact Node.look_eq_directory_iff.mpr ⟨entries, hnode⟩

theorem isDirectory_of_hasFile {disk : Disk} {directory : Path} {name : String}
    (h : disk.HasFile directory name) : Storage.isDirectory disk directory = true := by
  obtain ⟨place, content, hplace, hwalk⟩ := h
  exact isDirectory_of_walk hplace hwalk

theorem isDirectory_of_child {disk : Disk} {p : Path} {name : String}
    (hname : Path.innerComponent? name = some (.name name))
    (h : Storage.isDirectory disk (p.child name) = true) : Storage.isDirectory disk p = true := by
  obtain ⟨found, hfound, hlook⟩ := (isDirectory_iff disk _).mp h
  obtain ⟨entries, hwalk⟩ := Node.look_eq_directory_iff.mp hlook
  obtain ⟨place, hplace, rfl⟩ := place_child hname hfound
  exact isDirectory_of_walk hplace hwalk

/-- A file that opens is in its directory; one whose path is too long is there and does not open. -/
theorem hasFile_of_find {disk : Disk} {p : Path} {name : String} {content : ByteArray}
    (hname : Path.innerComponent? name = some (.name name))
    (h : disk.find (p.child name) = .ok (.file content)) : disk.HasFile p name := by
  obtain ⟨found, hfound, hwalk, -⟩ := find_eq_ok_iff.mp h
  obtain ⟨place, hplace, rfl⟩ := place_child hname hfound
  exact ⟨place, content, hplace, hwalk⟩

/-! ## Walking -/

variable {disk : Disk} {p : Path} {names : List String}

theorem exists_find_of_isDirectory (h : Storage.isDirectory disk p = true) :
    ∃ place entries, disk.place p = .ok place ∧ disk.root.walk place = .ok (.directory entries) ∧
      disk.find p = .ok (.directory entries) := by
  obtain ⟨place, hplace, hlook⟩ := (isDirectory_iff disk p).mp h
  obtain ⟨entries, hwalk⟩ := Node.look_eq_directory_iff.mp hlook
  exact ⟨place, entries, hplace, hwalk,
    find_eq_ok_iff.mpr ⟨place, hplace, hwalk, Bool.and_false _⟩⟩

/-- A walk through a directory finds the files below it that can be reached. -/
theorem mem_files_iff (hroot : disk.root.WellFormed) (hp : Storage.isDirectory disk p = true) :
    names ∈ Storage.files disk p ↔ ∃ place content, disk.place p = .ok place ∧
      disk.root.walk (place ++ names) = .ok (.file content) ∧
        Node.OpensAlong (disk.opens p) [] names := by
  obtain ⟨place, entries, hplace, hwalk, hfind⟩ := exists_find_of_isDirectory hp
  have hfiles : Storage.files disk p =
      (Node.directory entries).filesFrom (disk.opens p) [] := by
    simp only [Storage.files, files, hfind]
  rw [hfiles, Node.mem_filesFrom_iff (Node.wellFormed_of_walk hroot hwalk).1]
  have hbelow (names : List String) :
      disk.root.walk (place ++ names) = (Node.directory entries).walk names := by
    rw [Node.walk_append, hwalk]
    rfl
  constructor
  · rintro ⟨rest, content, rfl, hrest, hopens⟩
    exact ⟨place, content, hplace, (hbelow _).trans hrest, hopens⟩
  · rintro ⟨found, content, hfound, hrest, hopens⟩
    obtain rfl := Except.ok.inj (hplace.symm.trans hfound)
    exact ⟨names, content, rfl, (hbelow names).symm.trans hrest, hopens⟩

/-- A walk finds files by names that entries can have, in order and none twice. -/
theorem pairwise_files (hroot : disk.root.WellFormed) (p : Path) :
    (Storage.files disk p).Pairwise (· < ·) ∧
      ∀ names ∈ Storage.files disk p, ∀ name ∈ names, Node.isName name = true := by
  simp only [Storage.files, files]
  cases hfind : disk.find p with
  | error fault => exact ⟨.nil, nofun⟩
  | ok node =>
    obtain ⟨place, -, hwalk, -⟩ := find_eq_ok_iff.mp hfind
    have hnode := (Node.wellFormed_of_walk hroot hwalk).1
    refine ⟨Node.pairwise_filesFrom hnode, fun names hnames => ?_⟩
    obtain ⟨rest, content, rfl, hrest, -⟩ := (Node.mem_filesFrom_iff hnode).mp hnames
    exact (Node.wellFormed_of_walk hnode hrest).2

theorem opens_of_isDirectory (h : Storage.isDirectory disk (p.descend names) = true) :
    disk.opens p names = true := by
  obtain ⟨_, _, _, _, hfind⟩ := exists_find_of_isDirectory h
  rw [opens, hfind]
  rfl

theorem opens_nil (h : Storage.isDirectory disk p = true) : disk.opens p [] = true :=
  @opens_of_isDirectory disk p [] h

/-- A walk finds the files in the directory itself. -/
theorem singleton_mem_files_iff (hroot : disk.root.WellFormed)
    (hp : Storage.isDirectory disk p = true) {name : String} :
    [name] ∈ Storage.files disk p ↔ disk.HasFile p name := by
  rw [mem_files_iff hroot hp]
  constructor
  · rintro ⟨place, content, hplace, hwalk, -⟩
    exact ⟨place, content, hplace, hwalk⟩
  · rintro ⟨place, content, hplace, hwalk⟩
    exact ⟨place, content, hplace, hwalk,
      Node.opensAlong_cons.mpr ⟨opens_nil hp, Node.opensAlong_nil⟩⟩

/-- A walk finds the files in each directory in the directory. -/
theorem pair_mem_files_iff (hroot : disk.root.WellFormed)
    (hp : Storage.isDirectory disk p = true) {name inner : String}
    (hname : Path.innerComponent? name = some (.name name)) :
    [name, inner] ∈ Storage.files disk p ↔ disk.HasFile (p.child name) inner := by
  rw [mem_files_iff hroot hp]
  constructor
  · rintro ⟨place, content, hplace, hwalk, hopens⟩
    obtain ⟨-, hopens⟩ := Node.opensAlong_cons.mp hopens
    have hopen : (disk.find (p.child name)).isOk = true := (Node.opensAlong_cons.mp hopens).1
    cases hfind : disk.find (p.child name) with
    | error fault =>
      rw [hfind] at hopen
      cases hopen
    | ok node =>
      obtain ⟨found, hfound, -, -⟩ := find_eq_ok_iff.mp hfind
      obtain ⟨above, habove, rfl⟩ := place_child hname hfound
      obtain rfl := Except.ok.inj (hplace.symm.trans habove)
      refine ⟨place ++ [name], content, hfound, ?_⟩
      rw [List.append_assoc, List.singleton_append]
      exact hwalk
  · intro hfile
    have hinner : disk.opens p [name] = true := opens_of_isDirectory (isDirectory_of_hasFile hfile)
    obtain ⟨found, content, hfound, hwalk⟩ := hfile
    obtain ⟨place, hplace, rfl⟩ := place_child hname hfound
    rw [List.append_assoc, List.singleton_append] at hwalk
    have hopens : Node.OpensAlong (disk.opens p) [] [name, inner] := Node.opensAlong_cons.mpr
      ⟨opens_nil hp, Node.opensAlong_cons.mpr ⟨hinner, Node.opensAlong_nil⟩⟩
    exact ⟨place, content, hplace, hwalk, hopens⟩

end Disk

end JsonCollections
