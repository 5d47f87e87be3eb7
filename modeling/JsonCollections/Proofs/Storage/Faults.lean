import JsonCollections.Proofs.Storage.Walk
import Mathlib.Data.List.Induction

set_option autoImplicit false

/-!
# Why nothing is found at a path

A path that is not too long, and whose names are not, fails for one of two reasons: the way that it
takes leads on from a file (`Disk.Obstructed`), or there is nothing at a place on the way
(`Disk.find_eq_notDirectory_iff`, `Disk.find_eq_error`).  Components are followed without looking
unless they go up, so the file that is in the way is found again among the places of the components
before it (`Disk.exists_follow_of_prefix`).
-/

namespace JsonCollections

namespace Node

/-! ## Ways through a tree -/

theorem length_of_walk {node found : Node} {names : List String} (h : node.walk names = .ok found) :
    ∀ name ∈ names, name.utf8ByteSize ≤ maxNameBytes := by
  induction names generalizing node with
  | nil => exact nofun
  | cons name rest ih =>
    cases node with
    | file content => cases h
    | directory entries =>
      rw [walk] at h
      split at h
      · cases h
      · rename_i hname
        split at h
        · exact List.forall_mem_cons.mpr ⟨Nat.not_lt.mp hname, ih h⟩
        · cases h

/-- What a way goes on from is a directory. -/
theorem exists_directory_of_walk {node found : Node} {front rest : List String} {name : String}
    (h : node.walk (front ++ name :: rest) = .ok found) :
    ∃ entries, node.walk front = .ok (.directory entries) := by
  rw [walk_append] at h
  obtain ⟨between, hbetween, h⟩ := bind_eq_ok h
  cases between with
  | file content => cases h
  | directory entries => exact ⟨entries, hbetween⟩

/-- A way that leads on from a file leads nowhere. -/
theorem walk_of_file {node : Node} {front : List String} {content : ByteArray}
    (h : node.walk front = .ok (.file content)) (name : String) (rest : List String) :
    node.walk (front ++ name :: rest) = .error .notDirectory := by
  rw [walk_append, h]
  rfl

/-- A way whose names are not too long leads nowhere because it leads on from a file, or because
there is nothing. -/
theorem walk_eq_error {node : Node} {names : List String} {fault : TreeFault}
    (hnames : ∀ name ∈ names, name.utf8ByteSize ≤ maxNameBytes)
    (h : node.walk names = .error fault) :
    fault = .missing ∨ fault = .notDirectory ∧ ∃ front name rest content,
      names = front ++ name :: rest ∧ node.walk front = .ok (.file content) := by
  induction names generalizing node with
  | nil => cases node <;> cases h
  | cons name rest ih =>
    cases node with
    | file content =>
      cases h
      exact .inr ⟨rfl, [], name, rest, content, rfl, rfl⟩
    | directory entries =>
      obtain ⟨hname, hrest⟩ := List.forall_mem_cons.mp hnames
      rw [walk, if_neg (Nat.not_lt.mpr hname)] at h
      cases hentry : Entries.get? entries name with
      | none =>
        rw [hentry] at h
        cases h
        exact .inl rfl
      | some node =>
        rw [hentry] at h
        refine (ih hrest h).imp_right ?_
        rintro ⟨hfault, front, next, rest, content, rfl, hfile⟩
        refine ⟨hfault, name :: front, next, rest, content, rfl, ?_⟩
        rw [walk, if_neg (Nat.not_lt.mpr hname), hentry]
        exact hfile

end Node

namespace Path

/-- Components after the first are names, or go up. -/
theorem forall_tail_components (p : Path) :
    ∀ part ∈ p.components.tail, part = .up ∨ ∃ s, part = .name s := by
  have hinner : ∀ (segments : List String), ∀ part ∈ segments.filterMap innerComponent?,
      part = .up ∨ ∃ s, part = .name s := by
    intro segments part hpart
    obtain ⟨s, -, hs⟩ := List.mem_filterMap.mp hpart
    unfold innerComponent? at hs
    split at hs
    · cases hs
    · split at hs
      · exact .inl (Option.some.inj hs).symm
      · exact .inr ⟨s, (Option.some.inj hs).symm⟩
  unfold components
  split
  · exact hinner _
  · exact hinner _
  · exact fun part hpart => hinner _ part (List.mem_of_mem_tail hpart)

/-- The path and the names in it are no longer than the system allows, and it holds no null
character. -/
structure WithinLimits (p : Path) : Prop where
  null_free : '\x00' ∉ p.text.toList
  length_le : p.text.utf8ByteSize ≤ Disk.maxPathBytes
  names_le : ∀ s, .name s ∈ p.components → s.utf8ByteSize ≤ Node.maxNameBytes

/-- The length of a component, if it is a name. -/
def nameLength : Component → Nat
  | .name s => s.utf8ByteSize
  | .root | .here | .up => 0

theorem withinLimits_iff {p : Path} : p.WithinLimits ↔ ('\x00' ∉ p.text.toList ∧
    p.text.utf8ByteSize ≤ Disk.maxPathBytes) ∧
      ∀ part ∈ p.components, nameLength part ≤ Node.maxNameBytes := by
  constructor
  · rintro ⟨hnull, hlength, hnames⟩
    refine ⟨⟨hnull, hlength⟩, fun part hpart => ?_⟩
    cases part with
    | name s => exact hnames s hpart
    | root | here | up => exact Nat.zero_le _
  · rintro ⟨⟨hnull, hlength⟩, hparts⟩
    exact ⟨hnull, hlength, fun s hs => hparts (.name s) hs⟩

instance : DecidablePred WithinLimits := fun _ => decidable_of_iff _ withinLimits_iff.symm

end Path

namespace Disk

/-! ## Following components -/

theorem place_eq_follow (disk : Disk) {p : Path} (h : p.WithinLimits) :
    disk.place p = follow disk.root disk.start p.components := by
  have hnull : ¬ p.text.toList.contains '\x00' = true := by
    rw [List.contains_iff_mem]
    exact h.null_free
  rw [place, if_neg hnull, if_neg (Nat.not_lt.mpr h.length_le)]

theorem follow_concat (root : Node) (place : List String) (parts : List Component)
    (part : Component) : follow root place (parts ++ [part]) =
      (follow root place parts).bind fun place => follow root place [part] :=
  follow_append root place parts [part]

/-- The names of the place that components lead to come from them or from where they begin. -/
theorem mem_of_follow {root : Node} {start place : List String} {parts : List Component}
    (h : follow root start parts = .ok place) {name : String} (hname : name ∈ place) :
    name ∈ start ∨ .name name ∈ parts := by
  induction parts generalizing start with
  | nil =>
    cases h
    exact .inl hname
  | cons part rest ih =>
    cases part with
    | root => exact .inr (List.mem_cons_of_mem _ ((ih h).resolve_left List.not_mem_nil))
    | here => exact (ih h).imp_right (List.mem_cons_of_mem _)
    | name s =>
      rcases ih h with hmem | hmem
      · refine (List.mem_append.mp hmem).imp_right fun hs => ?_
        rw [List.mem_singleton.mp hs]
        exact List.mem_cons_self
      · exact .inr (List.mem_cons_of_mem _ hmem)
    | up =>
      obtain ⟨node, -, h⟩ := bind_eq_ok h
      cases node with
      | file content => cases h
      | directory entries =>
        exact (ih h).imp ((List.dropLast_sublist _).subset ·) (List.mem_cons_of_mem _)

/-- Whatever is above the place that components lead to is the place of some of them, or above the
place where they begin. -/
theorem exists_follow_of_prefix {root : Node} {start front rest : List String} {name : String}
    {parts : List Component} (h : follow root start parts = .ok (front ++ name :: rest)) :
    (∃ before after, parts = before ++ after ∧ after ≠ [] ∧ follow root start before = .ok front) ∨
      ∃ below, start = front ++ name :: below := by
  induction parts using List.reverseRecOn generalizing rest with
  | nil => exact .inr ⟨rest, Except.ok.inj h⟩
  | append_singleton parts part ih =>
    have hlonger : ∀ {more}, follow root start parts = .ok (front ++ name :: more) →
        (∃ before after, parts ++ [part] = before ++ after ∧ after ≠ [] ∧
          follow root start before = .ok front) ∨ ∃ below, start = front ++ name :: below := by
      intro more hparts
      refine (ih hparts).imp_left ?_
      rintro ⟨before, after, rfl, -, hbefore⟩
      exact ⟨before, after ++ [part], List.append_assoc _ _ _, List.concat_ne_nil _ _, hbefore⟩
    rw [follow_concat] at h
    obtain ⟨place, hplace, h⟩ := bind_eq_ok h
    cases part with
    | root =>
      exact absurd (Except.ok.inj h).symm
        (List.append_ne_nil_of_right_ne_nil _ (List.cons_ne_nil _ _))
    | here => exact hlonger (hplace.trans (congrArg Except.ok (Except.ok.inj h)))
    | name s =>
      have hplaces : place ++ [s] = front ++ name :: rest := Except.ok.inj h
      rcases List.eq_nil_or_concat rest with rfl | ⟨more, last, rfl⟩
      · obtain ⟨rfl, -⟩ := List.append_inj' hplaces rfl
        exact .inl ⟨parts, [.name s], rfl, List.cons_ne_nil _ _, hplace⟩
      · rw [List.concat_eq_append, ← List.cons_append, ← List.append_assoc] at hplaces
        obtain ⟨rfl, -⟩ := List.append_inj' hplaces rfl
        exact hlonger hplace
    | up =>
      obtain ⟨node, -, h⟩ := bind_eq_ok h
      cases node with
      | file content => cases h
      | directory entries =>
        have hplaces : place.dropLast = front ++ name :: rest := Except.ok.inj h
        rcases List.eq_nil_or_concat place with rfl | ⟨more, last, rfl⟩
        · exact absurd hplaces.symm (List.append_ne_nil_of_right_ne_nil _ (List.cons_ne_nil _ _))
        · rw [List.concat_eq_append, List.dropLast_concat] at hplaces
          rw [List.concat_eq_append, hplaces, List.append_assoc, List.cons_append] at hplace
          exact hlonger hplace

/-- Components that go up fail where nothing is, or where a file is. -/
theorem follow_eq_error {root : Node} {start : List String} {parts : List Component}
    {fault : TreeFault} (h : follow root start parts = .error fault) :
    ∃ before after place, parts = before ++ .up :: after ∧ follow root start before = .ok place ∧
      (root.walk place = .error fault ∨
        fault = .notDirectory ∧ ∃ content, root.walk place = .ok (.file content)) := by
  induction parts generalizing start with
  | nil => cases h
  | cons part rest ih =>
    have hlater : ∀ {next},
        (∀ before, follow root start (part :: before) = follow root next before) →
        follow root next rest = .error fault → ∃ before after place,
          part :: rest = before ++ .up :: after ∧ follow root start before = .ok place ∧
            (root.walk place = .error fault ∨
              fault = .notDirectory ∧ ∃ content, root.walk place = .ok (.file content)) := by
      intro next hnext hrest
      obtain ⟨before, after, place, rfl, hplace, hfault⟩ := ih hrest
      exact ⟨part :: before, after, place, rfl, (hnext before).trans hplace, hfault⟩
    cases part with
    | root => exact hlater (fun _ => rfl) h
    | here => exact hlater (fun _ => rfl) h
    | name s => exact hlater (fun _ => rfl) h
    | up =>
      rw [follow] at h
      cases hwalk : root.walk start with
      | error found =>
        rw [hwalk] at h
        cases h
        exact ⟨[], rest, start, rfl, rfl, .inl hwalk⟩
      | ok node =>
        rw [hwalk] at h
        cases node with
        | file content =>
          cases h
          exact ⟨[], rest, start, rfl, rfl, .inr ⟨rfl, content, hwalk⟩⟩
        | directory entries =>
          refine hlater (fun before => ?_) h
          rw [follow, hwalk]
          rfl

/-- What comes after a file leads nowhere. -/
theorem follow_of_file {root : Node} {front : List String} {content : ByteArray}
    (hfile : root.walk front = .ok (.file content)) {parts : List Component}
    (hparts : ∀ part ∈ parts, part = .up ∨ ∃ s, part = .name s) (name : String)
    (rest : List String) :
    (follow root (front ++ name :: rest) parts).bind root.walk = .error .notDirectory := by
  have hwalk : ∀ rest, root.walk (front ++ name :: rest) = .error .notDirectory :=
    fun rest => Node.walk_of_file hfile name rest
  induction parts generalizing rest with
  | nil => exact hwalk rest
  | cons part parts ih =>
    obtain ⟨hpart, hrest⟩ := List.forall_mem_cons.mp hparts
    rcases hpart with rfl | ⟨s, rfl⟩
    · rw [follow, hwalk]
      rfl
    · rw [follow, List.append_assoc, List.cons_append]
      exact ih hrest _

/-! ## Files in the way -/

/-- The path leads on from a file. -/
def Obstructed (disk : Disk) (p : Path) : Prop :=
  ∃ before after, p.components = before ++ after ∧ after ≠ [] ∧
    ∃ place content, follow disk.root disk.start before = .ok place ∧
      disk.root.walk place = .ok (.file content)

theorem find_eq_bind (disk : Disk) {p : Path} (hp : p.WithinLimits)
    (hasks : p.asksDirectory = false) :
    disk.find p = (follow disk.root disk.start p.components).bind disk.root.walk := by
  rw [find, place_eq_follow disk hp]
  cases follow disk.root disk.start p.components with
  | error fault => rfl
  | ok place =>
    change (disk.root.walk place).bind _ = disk.root.walk place
    cases disk.root.walk place with
    | error fault => rfl
    | ok node =>
      change (if (p.asksDirectory && !node.isDirectory) = true then _ else _) = _
      rw [hasks]
      rfl

section

variable {disk : Disk} {p : Path}

theorem find_of_obstructed (hstart : disk.root.look disk.start = some none) (hp : p.WithinLimits)
    (hasks : p.asksDirectory = false) (h : disk.Obstructed p) :
    disk.find p = .error .notDirectory := by
  obtain ⟨before, after, hparts, hne, place, content, hplace, hfile⟩ := h
  obtain ⟨entries, hentries⟩ := Node.look_eq_directory_iff.mp hstart
  obtain ⟨first, before, rfl⟩ : ∃ first rest, before = first :: rest := by
    refine List.exists_cons_of_ne_nil ?_
    -- paths start at a directory
    rintro rfl
    rw [← Except.ok.inj hplace, hentries] at hfile
    cases hfile
  have hafter : ∀ part ∈ after, part = .up ∨ ∃ s, part = .name s := by
    intro part hpart
    refine p.forall_tail_components part ?_
    rw [hparts]
    exact List.mem_append_right _ hpart
  rw [find_eq_bind disk hp hasks, hparts, follow_append, hplace]
  obtain ⟨part, after, rfl⟩ := List.exists_cons_of_ne_nil hne
  obtain ⟨hpart, hrest⟩ := List.forall_mem_cons.mp hafter
  change (follow disk.root place (part :: after)).bind disk.root.walk = _
  rcases hpart with rfl | ⟨s, rfl⟩
  · rw [follow, hfile]
    rfl
  · rw [follow]
    exact follow_of_file hfile hrest s []

/-- A place is not found because a file is in the way, or because nothing is there. -/
theorem walk_eq_error_of_follow (hstart : disk.root.look disk.start = some none)
    (hp : p.WithinLimits) {before after : List Component} (hparts : p.components = before ++ after)
    {place : List String} (hplace : follow disk.root disk.start before = .ok place)
    {fault : TreeFault} (hfault : disk.root.walk place = .error fault) :
    fault = .missing ∨ fault = .notDirectory ∧ disk.Obstructed p := by
  obtain ⟨entries, hentries⟩ := Node.look_eq_directory_iff.mp hstart
  have hnames : ∀ name ∈ place, name.utf8ByteSize ≤ Node.maxNameBytes := by
    intro name hname
    rcases mem_of_follow hplace hname with hmem | hmem
    · exact Node.length_of_walk hentries name hmem
    · refine hp.names_le name ?_
      rw [hparts]
      exact List.mem_append_left _ hmem
  refine (Node.walk_eq_error hnames hfault).imp_right ?_
  rintro ⟨hreason, front, name, rest, content, rfl, hfile⟩
  refine ⟨hreason, ?_⟩
  rcases exists_follow_of_prefix hplace with ⟨earlier, between, rfl, hne, hfront⟩ | ⟨below, hbelow⟩
  · refine ⟨earlier, between ++ after, ?_, ?_, front, content, hfront, hfile⟩
    · rw [hparts, List.append_assoc]
    · exact List.append_ne_nil_of_left_ne_nil hne _
  · rw [hbelow] at hentries
    obtain ⟨found, hfound⟩ := Node.exists_directory_of_walk hentries
    rw [hfile] at hfound
    cases hfound

/-- Nothing is found because a file is in the way, or because nothing is there. -/
theorem find_eq_error (hstart : disk.root.look disk.start = some none) (hp : p.WithinLimits)
    (hasks : p.asksDirectory = false) {fault : TreeFault} (h : disk.find p = .error fault) :
    fault = .missing ∨ fault = .notDirectory ∧ disk.Obstructed p := by
  rw [find_eq_bind disk hp hasks] at h
  cases hfollow : follow disk.root disk.start p.components with
  | ok place =>
    rw [hfollow] at h
    exact walk_eq_error_of_follow hstart hp (List.append_nil _).symm hfollow h
  | error found =>
    rw [hfollow] at h
    cases h
    obtain ⟨before, after, place, hparts, hplace, hfault | ⟨hfault, content, hfile⟩⟩ :=
      follow_eq_error hfollow
    · exact walk_eq_error_of_follow hstart hp hparts hplace hfault
    · exact .inr ⟨hfault, before, _, hparts, List.cons_ne_nil _ _, place, content, hplace, hfile⟩

theorem find_eq_notDirectory_iff (hstart : disk.root.look disk.start = some none)
    (hp : p.WithinLimits) (hasks : p.asksDirectory = false) :
    disk.find p = .error .notDirectory ↔ disk.Obstructed p := by
  refine ⟨fun h => ?_, find_of_obstructed hstart hp hasks⟩
  rcases find_eq_error hstart hp hasks h with hfault | ⟨-, hobstructed⟩
  · cases hfault
  · exact hobstructed

end

end Disk

end JsonCollections
