import JsonCollections.Proofs.Entries
import JsonCollections.Proofs.Path
import JsonCollections.Proofs.Storage.Laws
import JsonCollections.Storage.Disk

set_option autoImplicit false

/-!
# The laws of files on a disk

`Node.look` says what is at a place, without the reason if there is nothing.  Making, replacing and
removing a file changes what is at that place only (`look_putFile`, `look_removeFile`), so a
replacement that is done has put the new content at the target and taken the temporary file away
(`look_result`).  Places that paths lead to go by the directories, which stay.
-/

namespace JsonCollections

namespace Node

/-! ## What is at a place -/

/-- The content of a file; a directory has none. -/
def content? : Node → Option ByteArray
  | .file content => some content
  | .directory _ => none

/-- What is at a place: the content of a file, or `none` for a directory. -/
def look (root : Node) (place : List String) : Option (Option ByteArray) :=
  (root.walk place).toOption.map content?

theorem look_directory_cons (entries : List (String × Node)) (name : String) (rest : List String) :
    look (.directory entries) (name :: rest) =
      if maxNameBytes < name.utf8ByteSize then none
      else (Entries.get? entries name).bind (look · rest) := by
  unfold look
  rw [walk]
  split
  · rfl
  · cases Entries.get? entries name <;> rfl

theorem look_eq_directory_iff {root : Node} {place : List String} :
    root.look place = some none ↔ ∃ entries, root.walk place = .ok (.directory entries) := by
  unfold look
  cases root.walk place with
  | error fault => exact ⟨nofun, nofun⟩
  | ok node =>
    cases node with
    | file content => exact ⟨nofun, nofun⟩
    | directory entries => exact ⟨fun _ => ⟨entries, rfl⟩, fun _ => rfl⟩

theorem look_eq_file_iff {root : Node} {place : List String} {content : ByteArray} :
    root.look place = some (some content) ↔ root.walk place = .ok (.file content) := by
  unfold look
  cases root.walk place with
  | error fault => exact ⟨nofun, nofun⟩
  | ok node =>
    cases node with
    | file found =>
      constructor
      · rintro ⟨⟩
        rfl
      · rintro ⟨⟩
        rfl
    | directory entries => exact ⟨nofun, nofun⟩

theorem get?_setEntry (entries : List (String × Node)) (name : String) (new : Option Node)
    (other : String) : Entries.get? (setEntry entries name new) other =
      if other = name then new else Entries.get? entries other := by
  cases new with
  | none => exact Entries.get?_filter_ne entries name other
  | some node => exact Entries.get?_insert entries name node other

/-! ## Changing one file -/

/-- A change that makes, replaces or removes a file: it leaves the new content, if any, and it
does not work on a directory. -/
def ChangesFile (change : Option Node → Except TreeFault (Option Node)) (new : Option ByteArray) :
    Prop :=
  ∀ old node, change old = .ok node → node = new.map .file ∧ ∀ es, old ≠ some (.directory es)

/-- Nothing is seen below a file or below nothing. -/
theorem bind_look_cons {node : Option Node} (h : ∀ es, node ≠ some (.directory es)) (name : String)
    (rest : List String) : node.bind (look · (name :: rest)) = none := by
  cases node with
  | none => rfl
  | some node =>
    cases node with
    | file content => rfl
    | directory es => exact absurd rfl (h es)

/-- A change of one entry of a directory is seen there only. -/
theorem look_setEntry {entries : List (String × Node)} {name : String}
    (hname : ¬ maxNameBytes < name.utf8ByteSize) {new : Option ByteArray}
    {place : List String}
    (hold : (Entries.get? entries name).bind (look · place) ≠ some none) {node : Option Node}
    (hnode : ∀ q, node.bind (look · q) =
      if q = place then new.map some else (Entries.get? entries name).bind (look · q)) :
    (directory entries).look (name :: place) ≠ some none ∧
      ∀ q, (directory (setEntry entries name node)).look q =
        if q = name :: place then new.map some else (directory entries).look q := by
  constructor
  · rw [look_directory_cons, if_neg hname]
    exact hold
  · intro q
    cases q with
    | nil => rfl
    | cons other q =>
      rw [look_directory_cons, look_directory_cons, get?_setEntry]
      by_cases ho : other = name
      · rw [ho, if_neg hname, if_neg hname, if_pos rfl, hnode]
        simp only [List.cons.injEq, true_and]
      · rw [if_neg ho, if_neg fun h => ho (List.cons.inj h).1]

theorem look_alter {change : Option Node → Except TreeFault (Option Node)} {new : Option ByteArray}
    (hchange : ChangesFile change new) {root root' : Node} {place : List String}
    (h : root.alter change place = .ok root') :
    root.look place ≠ some none ∧
      ∀ q, root'.look q = if q = place then new.map some else root.look q := by
  induction place generalizing root root' with
  | nil => cases root <;> cases h
  | cons name rest ih =>
    cases root with
    | file content => cases h
    | directory entries =>
      rw [alter.eq_def] at h
      simp only at h
      split at h
      · cases h
      · rename_i hname
        cases rest with
        | nil =>
          cases hnode : change (Entries.get? entries name) with
          | error fault =>
            rw [hnode] at h
            cases h
          | ok node =>
            rw [hnode] at h
            cases h
            obtain ⟨rfl, hold⟩ := hchange _ _ hnode
            refine look_setEntry hname ?_ fun q => ?_
            · cases hentry : Entries.get? entries name with
              | none => nofun
              | some old =>
                cases old with
                | file content => nofun
                | directory es => exact absurd hentry (hold es)
            · cases q with
              | nil => cases new <;> rfl
              | cons next q =>
                rw [if_neg (List.cons_ne_nil next q), bind_look_cons hold]
                cases new <;> rfl
        | cons next rest =>
          cases hentry : Entries.get? entries name with
          | none =>
            rw [hentry] at h
            cases h
          | some node =>
            rw [hentry] at h
            cases hchanged : node.alter change (next :: rest) with
            | error fault =>
              simp only [hchanged] at h
              cases h
            | ok changed =>
              simp only [hchanged] at h
              cases h
              obtain ⟨hold, hlook⟩ := ih hchanged
              refine @look_setEntry entries name hname new (next :: rest) ?_ (some changed) fun q => ?_
              · rw [hentry]
                exact hold
              · rw [hentry]
                exact hlook q

/-- A file is never put at the top. -/
theorem ne_nil_of_putFile {root root' : Node} {place : List String} {content : ByteArray}
    (h : root.putFile place content = .ok root') : place ≠ [] := by
  rintro rfl
  cases root <;> cases h

/-- Putting a file changes what is at its place, where no directory was. -/
theorem look_putFile {root root' : Node} {place : List String} {content : ByteArray}
    (h : root.putFile place content = .ok root') : root.look place ≠ some none ∧
      ∀ q, root'.look q = if q = place then some (some content) else root.look q := by
  refine @look_alter _ (some content) (fun old node hnode => ?_) _ _ _ h
  split at hnode
  · cases hnode
  · rename_i hold
    cases hnode
    exact ⟨rfl, fun es => hold es⟩

/-- Removing a file leaves nothing at its place, where no directory was. -/
theorem look_removeFile {root root' : Node} {place : List String}
    (h : root.removeFile place = .ok root') : root.look place ≠ some none ∧
      ∀ q, root'.look q = if q = place then none else root.look q := by
  refine @look_alter _ none (fun old node hnode => ?_) _ _ _ h
  split at hnode
  · cases hnode
    exact ⟨rfl, nofun⟩
  · cases hnode
  · cases hnode

theorem moveFile_eq_ok {root root' : Node} {place target : List String}
    (h : root.moveFile place target = .ok root') : ∃ content moved,
      root.look place = some (some content) ∧ root.putFile target content = .ok moved ∧
        moved.removeFile place = .ok root' := by
  obtain ⟨node, hnode, h⟩ := bind_eq_ok h
  cases node with
  | directory entries => cases h
  | file content =>
    obtain ⟨moved, hmoved, hremoved⟩ := bind_eq_ok h
    exact ⟨content, moved, look_eq_file_iff.mpr hnode, hmoved, hremoved⟩

/-! ## Directories -/

/-- Two trees have directories at the same places. -/
def SameDirectories (root root' : Node) : Prop :=
  ∀ q, root'.look q = some none ↔ root.look q = some none

theorem SameDirectories.refl (root : Node) : root.SameDirectories root := fun _ => Iff.rfl

theorem SameDirectories.trans {root root' root'' : Node} (h : root.SameDirectories root')
    (h' : root'.SameDirectories root'') : root.SameDirectories root'' := fun q => (h' q).trans (h q)

/-- What is changed at one place, where no directory was or comes to be, changes no directory. -/
theorem sameDirectories_of_look {root root' : Node} {place : List String}
    {new : Option (Option ByteArray)} (hold : root.look place ≠ some none)
    (hlook : ∀ q, root'.look q = if q = place then new else root.look q) (hnew : new ≠ some none) :
    root.SameDirectories root' := by
  intro q
  rw [hlook]
  split
  · rename_i hq
    rw [hq]
    exact iff_of_false hnew hold
  · exact Iff.rfl

theorem sameDirectories_putFile {root root' : Node} {place : List String} {content : ByteArray}
    (h : root.putFile place content = .ok root') : root.SameDirectories root' := by
  obtain ⟨hold, hlook⟩ := look_putFile h
  exact sameDirectories_of_look hold hlook nofun

theorem sameDirectories_removeFile {root root' : Node} {place : List String}
    (h : root.removeFile place = .ok root') : root.SameDirectories root' := by
  obtain ⟨hold, hlook⟩ := look_removeFile h
  exact sameDirectories_of_look hold hlook nofun

end Node

/-! ## Replacing a file -/

namespace Replacement

theorem settle_eq_none {root next : Node} {changed : Except TreeFault Node}
    (h : settle root changed = (next, none)) : changed = .ok next := by
  cases changed with
  | ok found => exact congrArg Except.ok (Prod.mk.inj h).1
  | error fault => cases (Prod.mk.inj h).2

/-- A run without a fault has done its first stage and then the others. -/
theorem runStages_cons {job : Replacement} {stage : Stage} {rest : List Stage} {root : Node}
    (h : (job.runStages (stage :: rest) root).2 = none) :
    ∃ next, job.runStage root stage = (next, none) ∧ (job.runStages rest next).2 = none ∧
      (job.runStages (stage :: rest) root).1 = next :: (job.runStages rest next).1 := by
  simp only [runStages] at h ⊢
  split at h
  · rename_i next hnext
    exact ⟨next, hnext, h, rfl⟩
  · cases h

/-- A stage without a fault was not made to fail. -/
theorem fails_eq_false {job : Replacement} {stage : Stage} {root next : Node}
    (h : job.runStage root stage = (next, none)) : job.fails stage = false := by
  cases hfails : job.fails stage with
  | false => rfl
  | true => cases stage <;> simp [runStage, hfails] at h

/-- A replacement that is done changes the target, and takes away the temporary file; there was no
directory at either place. -/
theorem look_result {job : Replacement} {root : Node} (h : (job.run root).2 = none) :
    job.target ≠ [] ∧ root.look job.target ≠ some none ∧ root.look job.temporary ≠ some none ∧
      ∀ q, (job.result root).look q =
        if q = job.temporary then none
        else if q = job.target then some (some job.content) else root.look q := by
  obtain ⟨created, hcreate, h, hstages⟩ := @runStages_cons _ .create [.fill, .flush, .rename] _ h
  obtain ⟨filled, hfill, h, hafterCreate⟩ := runStages_cons h
  obtain ⟨flushed, hflush, h, hafterFill⟩ := runStages_cons h
  obtain ⟨renamed, hrename, -, hafterFlush⟩ := runStages_cons h
  have hresult : job.result root = renamed := by
    simp only [result, run, Stage.all, hstages, hafterCreate, hafterFill, hafterFlush]
    rfl
  simp only [runStage, fails_eq_false hcreate] at hcreate
  simp only [runStage, fails_eq_false hfill] at hfill
  simp only [runStage, fails_eq_false hflush] at hflush
  simp only [runStage, fails_eq_false hrename] at hrename
  obtain ⟨hroot, hcreated⟩ := Node.look_putFile (settle_eq_none hcreate)
  obtain ⟨-, hfilled⟩ := Node.look_putFile (settle_eq_none hfill)
  obtain rfl : filled = flushed := (Prod.mk.inj hflush).1
  obtain ⟨content, moved, hcontent, hput, hremove⟩ :=
    Node.moveFile_eq_ok (settle_eq_none hrename)
  -- what is moved is what the sibling was filled with
  rw [hfilled, if_pos rfl] at hcontent
  cases hcontent
  obtain ⟨htarget, hmoved⟩ := Node.look_putFile hput
  obtain ⟨-, hremoved⟩ := Node.look_removeFile hremove
  have hothers : ∀ q, q ≠ job.temporary → filled.look q = root.look q := by
    intro q hq
    rw [hfilled, if_neg hq, hcreated, if_neg hq]
  refine ⟨Node.ne_nil_of_putFile hput, ?_, hroot, fun q => ?_⟩
  · by_cases hq : job.target = job.temporary
    · rw [hq]
      exact hroot
    · rw [← hothers job.target hq]
      exact htarget
  · rw [hresult, hremoved]
    by_cases hq : q = job.temporary
    · rw [if_pos hq, if_pos hq]
    · rw [if_neg hq, if_neg hq, hmoved, hothers q hq]

theorem fails_of_runStages {job : Replacement} {stages : List Stage} {root : Node}
    (h : (job.runStages stages root).2 = none) : ∀ stage ∈ stages, job.fails stage = false := by
  induction stages generalizing root with
  | nil => exact List.forall_mem_nil _
  | cons stage rest ih =>
    obtain ⟨next, hnext, hrest, -⟩ := runStages_cons h
    exact List.forall_mem_cons.mpr ⟨fails_eq_false hnext, ih hrest⟩

/-- The system refuses no stage of a run without a fault. -/
theorem fails_of_run {job : Replacement} {root : Node} (h : (job.run root).2 = none)
    (stage : Stage) : job.fails stage = false := by
  have hall : stage ∈ Stage.all := by cases stage <;> decide
  exact @fails_of_runStages job Stage.all root h stage hall

/-- The tree that a run leaves is one of those that it goes through. -/
theorem result_mem_run (job : Replacement) (root : Node) :
    job.result root ∈ (job.run root).1 := by
  have hne : (job.run root).1 ≠ [] := List.cons_ne_nil root _
  rw [result, List.getLast?_eq_some_getLast hne]
  exact List.getLast_mem hne

theorem sameDirectories_settle {root : Node} {changed : Except TreeFault Node}
    (h : ∀ root', changed = .ok root' → root.SameDirectories root') :
    root.SameDirectories (settle root changed).1 := by
  cases changed with
  | ok root' => exact h root' rfl
  | error fault => exact .refl root

/-- A stage makes no directory and takes none away. -/
theorem sameDirectories_runStage (job : Replacement) (root : Node) (stage : Stage) :
    root.SameDirectories (job.runStage root stage).1 := by
  have hput : ∀ place content,
      root.SameDirectories (settle root (root.putFile place content)).1 :=
    fun _ _ => sameDirectories_settle fun _ h => Node.sameDirectories_putFile h
  unfold runStage
  split
  · exact hput _ _
  · exact hput _ _
  · exact .refl root
  · refine sameDirectories_settle fun renamed h => ?_
    obtain ⟨content, moved, -, hmove, hremove⟩ := Node.moveFile_eq_ok h
    exact (Node.sameDirectories_putFile hmove).trans (Node.sameDirectories_removeFile hremove)
  · exact hput _ _
  · exact .refl root

theorem sameDirectories_tidy (job : Replacement) (root : Node) :
    root.SameDirectories (job.tidy root) :=
  sameDirectories_settle fun _ h => Node.sameDirectories_removeFile h

theorem sameDirectories_of_mem_runStages {job : Replacement} {stages : List Stage}
    {root between : Node} (h : between ∈ (job.runStages stages root).1) :
    root.SameDirectories between := by
  induction stages generalizing root with
  | nil => cases h
  | cons stage rest ih =>
    have hstage := job.sameDirectories_runStage root stage
    rw [runStages] at h
    split at h
    · rename_i next hnext
      rw [hnext] at hstage
      rcases List.mem_cons.mp h with rfl | hlater
      · exact hstage
      · exact hstage.trans (ih hlater)
    · rename_i next fault hnext
      rw [hnext] at hstage
      rcases List.mem_cons.mp h with rfl | htidied
      · exact hstage
      · rw [List.mem_singleton.mp htidied]
        exact hstage.trans (job.sameDirectories_tidy next)

/-- The directories stay at every point of a run. -/
theorem sameDirectories_of_mem_run {job : Replacement} {root between : Node}
    (h : between ∈ (job.run root).1) : root.SameDirectories between := by
  have hmem : between ∈ root :: (job.runStages Stage.all root).1 := h
  rcases List.mem_cons.mp hmem with rfl | hlater
  · exact .refl between
  · exact sameDirectories_of_mem_runStages hlater

/-- The place of the temporary sibling. -/
def temporaryPlace (place : List String) : List String :=
  place.dropLast ++ [temporaryName (place.getLast?.getD "")]

/-- The replacement of the text at a place, nothing failing from outside. -/
def ofPlace (place : List String) (content : String) : Replacement :=
  { target := place, temporary := temporaryPlace place, content := content.toUTF8 }

theorem temporaryPlace_concat (front : List String) (name : String) :
    temporaryPlace (front ++ [name]) = front ++ [temporaryName name] := by
  rw [temporaryPlace, List.dropLast_concat, List.getLast?_concat]
  rfl

/-- The name of a temporary sibling is no dots. -/
theorem innerComponent?_temporaryName (name : String) :
    Path.innerComponent? (temporaryName name) = some (.name (temporaryName name)) := by
  refine Path.innerComponent?_of_length ?_
  have hdot : ".".length = 1 := rfl
  have hending : ".tmp".length = 4 := rfl
  rw [temporaryName, String.length_append, String.length_append, hdot, hending]
  omega

/-- The temporary sibling has a longer name. -/
theorem temporaryPlace_ne (place : List String) : temporaryPlace place ≠ place := by
  intro heq
  have h : place ≠ [] := heq ▸ List.concat_ne_nil _ _
  have hlast : (temporaryPlace place).getLast? = place.getLast? := by rw [heq]
  rw [temporaryPlace, List.getLast?_concat, List.getLast?_eq_some_getLast h, Option.getD_some,
    Option.some.injEq, temporaryName] at hlast
  have hlength := congrArg String.length hlast
  rw [String.length_append, String.length_append] at hlength
  have hdot : ".".length = 1 := rfl
  omega

end Replacement

namespace Disk

/-! ## Places -/

/-- Where paths lead to goes by the directories of the tree. -/
theorem follow_eq_ok {root root' : Node} (h : root.SameDirectories root') {parts : List Component}
    {start place : List String} (hplace : follow root start parts = .ok place) :
    follow root' start parts = .ok place := by
  induction parts generalizing start with
  | nil => exact hplace
  | cons part rest ih =>
    cases part with
    | root | here | name s => exact ih hplace
    | up =>
      rw [follow] at hplace ⊢
      cases hwalk : root.walk start with
      | error fault =>
        rw [hwalk] at hplace
        cases hplace
      | ok node =>
        rw [hwalk] at hplace
        cases node with
        | file content => cases hplace
        | directory entries =>
          obtain ⟨entries', hwalk'⟩ := Node.look_eq_directory_iff.mp
            ((h start).mpr (Node.look_eq_directory_iff.mpr ⟨entries, hwalk⟩))
          rw [hwalk']
          exact ih hplace

theorem follow_append (root : Node) (place : List String) (parts more : List Component) :
    follow root place (parts ++ more) =
      (follow root place parts).bind fun place => follow root place more := by
  induction parts generalizing place with
  | nil => rfl
  | cons part rest ih =>
    cases part with
    | root | here | name s => exact ih _
    | up =>
      rw [List.cons_append, follow, follow]
      cases root.walk place with
      | error fault => rfl
      | ok node =>
        cases node with
        | file content => rfl
        | directory entries => exact ih _

theorem follow_of_place {disk : Disk} {p : Path} {place : List String}
    (h : disk.place p = .ok place) : follow disk.root disk.start p.components = .ok place := by
  unfold Disk.place at h
  split at h
  · cases h
  · split at h
    · cases h
    · exact h

theorem place_eq_ok {disk : Disk} {root' : Node} (h : disk.root.SameDirectories root') {p : Path}
    {place : List String} (hplace : disk.place p = .ok place) :
    ({ disk with root := root' } : Disk).place p = .ok place := by
  unfold Disk.place at hplace ⊢
  split at hplace
  · cases hplace
  · rename_i hname
    rw [if_neg hname]
    split at hplace
    · cases hplace
    · rename_i hlength
      rw [if_neg hlength]
      exact follow_eq_ok h hplace

theorem find_eq_ok_iff {disk : Disk} {p : Path} {node : Node} : disk.find p = .ok node ↔
    ∃ place, disk.place p = .ok place ∧ disk.root.walk place = .ok node ∧
      (p.asksDirectory && !node.isDirectory) = false := by
  constructor
  · intro h
    obtain ⟨place, hplace, h⟩ := bind_eq_ok h
    obtain ⟨found, hfound, h⟩ := bind_eq_ok h
    split at h
    · cases h
    · rename_i hasks
      cases h
      exact ⟨place, hplace, hfound, Bool.eq_false_iff.mpr hasks⟩
  · rintro ⟨place, hplace, hwalk, hasks⟩
    simp only [find, hplace, hwalk, bind, Except.bind, hasks, Bool.false_eq_true, if_false]

/-- A path leads to a directory if there is one at its place. -/
theorem isDirectory_iff (disk : Disk) (p : Path) : Storage.isDirectory disk p = true ↔
    ∃ place, disk.place p = .ok place ∧ disk.root.look place = some none := by
  have hfind : Storage.isDirectory disk p = true ↔
      ∃ entries, disk.find p = .ok (.directory entries) := by
    simp only [Storage.isDirectory]
    cases disk.find p with
    | error fault => exact ⟨nofun, nofun⟩
    | ok node =>
      cases node with
      | file content => exact ⟨nofun, nofun⟩
      | directory entries => exact ⟨fun _ => ⟨entries, rfl⟩, fun _ => rfl⟩
  rw [hfind]
  constructor
  · rintro ⟨entries, h⟩
    obtain ⟨place, hplace, hwalk, -⟩ := find_eq_ok_iff.mp h
    exact ⟨place, hplace, Node.look_eq_directory_iff.mpr ⟨entries, hwalk⟩⟩
  · rintro ⟨place, hplace, hlook⟩
    obtain ⟨entries, hwalk⟩ := Node.look_eq_directory_iff.mp hlook
    exact ⟨entries, find_eq_ok_iff.mpr ⟨place, hplace, hwalk, Bool.and_false _⟩⟩

/-- A path is read if there is a file at its place that holds a text. -/
theorem read_eq_ok_iff {disk : Disk} {p : Path} {text : String} :
    Storage.read disk p = .ok text ↔ p.asksDirectory = false ∧ ∃ place content,
      disk.place p = .ok place ∧ disk.root.look place = some (some content) ∧
        String.fromUTF8? content = some text := by
  have hfind : Storage.read disk p = .ok text ↔
      ∃ content, disk.find p = .ok (.file content) ∧ String.fromUTF8? content = some text := by
    simp only [Storage.read, readText]
    cases disk.find p with
    | error fault =>
      constructor
      · intro h
        cases fault <;> cases h
      · rintro ⟨_, h, -⟩
        cases h
    | ok node =>
      cases node with
      | directory entries =>
        constructor
        · intro h
          cases h
        · rintro ⟨_, h, -⟩
          cases h
      | file content =>
        constructor
        · intro h
          refine ⟨content, rfl, ?_⟩
          simp only at h
          cases htext : String.fromUTF8? content with
          | none =>
            rw [htext] at h
            cases h
          | some found =>
            rw [htext] at h
            cases h
            rfl
        · rintro ⟨_, ⟨⟩, htext⟩
          simp only [htext]
  rw [hfind]
  constructor
  · rintro ⟨content, h, htext⟩
    obtain ⟨place, hplace, hwalk, hasks⟩ := find_eq_ok_iff.mp h
    exact ⟨(Bool.and_true _).symm.trans hasks, place, content, hplace,
      Node.look_eq_file_iff.mpr hwalk, htext⟩
  · rintro ⟨hasks, place, content, hplace, hlook, htext⟩
    exact ⟨content, find_eq_ok_iff.mpr ⟨place, hplace, Node.look_eq_file_iff.mp hlook,
      (Bool.and_true _).trans hasks⟩, htext⟩

/-! ## Laws -/

theorem fromUTF8?_toUTF8 (s : String) : String.fromUTF8? s.toUTF8 = some s := by
  rw [String.toUTF8_eq_toByteArray, String.fromUTF8?, dif_pos s.isValidUTF8]
  rfl

/-- A path that ends in a name leads to a place that ends in it. -/
theorem exists_front_of_place {disk : Disk} {p : Path} {place : List String}
    {parts : List Component} {name : String} (hp : p.components = parts ++ [.name name])
    (hplace : disk.place p = .ok place) :
    ∃ front, follow disk.root disk.start parts = .ok front ∧ place = front ++ [name] := by
  have hfollow := follow_of_place hplace
  rw [hp, follow_append] at hfollow
  obtain ⟨front, hfront, hlast⟩ := bind_eq_ok hfollow
  exact ⟨front, hfront, (Except.ok.inj hlast).symm⟩

theorem components_temporaryPath {p : Path} {parts : List Component} {name : String}
    (hp : p.components = parts ++ [.name name]) : (temporaryPath p).components =
      parts ++ [.name (Replacement.temporaryName name)] := by
  rw [temporaryPath, Path.fileName?_eq_some_iff.mpr ⟨parts, hp⟩, Option.getD_some]
  exact Path.components_withName hp (Replacement.innerComponent?_temporaryName name)

/-- The path of the temporary sibling leads to the place next to that of the path. -/
theorem place_temporaryPath {disk : Disk} {p : Path} {name : String} {place beside : List String}
    (hname : p.fileName? = some name) (hplace : disk.place p = .ok place)
    (hbeside : disk.place (temporaryPath p) = .ok beside) :
    beside = Replacement.temporaryPlace place := by
  obtain ⟨parts, hparts⟩ := Path.fileName?_eq_some_iff.mp hname
  obtain ⟨front, hfront, rfl⟩ := exists_front_of_place hparts hplace
  obtain ⟨front', hfront', rfl⟩ := exists_front_of_place (components_temporaryPath hparts) hbeside
  obtain rfl : front = front' := Except.ok.inj (hfront.symm.trans hfront')
  exact (Replacement.temporaryPlace_concat front name).symm

/-- A replacement is made of the file at the place that the path leads to. -/
theorem replacement_eq_ok {disk : Disk} {fails : Stage → Bool} {written : ByteArray} {p : Path}
    {content : String} {job : Replacement}
    (h : disk.replacement fails written p content = .ok job) : ∃ place refuses,
      disk.place p = .ok place ∧ (∀ stage, fails stage = true → refuses stage = true) ∧
        job = { Replacement.ofPlace place content with fails := refuses, written } := by
  unfold replacement at h
  cases hname : p.fileName? with
  | none =>
    rw [hname] at h
    cases h
  | some name =>
    rw [hname] at h
    obtain ⟨place, hplace, h⟩ := bind_eq_ok h
    obtain ⟨beside, hbeside, h⟩ := bind_eq_ok h
    obtain rfl := place_temporaryPath hname hplace hbeside
    refine ⟨place, _, hplace, fun stage hstage => ?_, (Except.ok.inj h).symm⟩
    rw [hstage, Bool.true_or]

/-- A path that ends in a name, and asks for no directory, has the file replaced that it leads to. -/
theorem replacement_of_name {disk : Disk} {fails : Stage → Bool} {p : Path} {name : String}
    {place beside : List String} (hfails : ∀ stage, fails stage = false)
    (hname : p.fileName? = some name) (hasks : p.asksDirectory = false)
    (hplace : disk.place p = .ok place) (hbeside : disk.place (temporaryPath p) = .ok beside)
    (written : ByteArray) (content : String) : disk.replacement fails written p content =
      .ok { Replacement.ofPlace place content with written } := by
  obtain rfl := place_temporaryPath hname hplace hbeside
  simp only [replacement, hname, hplace, hbeside, hasks, hfails, bind, Except.bind,
    Bool.and_false, Bool.or_false]
  rfl

/-- How a write ends: it leads nowhere, or the replacement is done or fails. -/
inductive Written (disk : Disk) (fails : Stage → Bool) (written : ByteArray) (p : Path)
    (content : String) : Disk × Except WriteFault Unit → Prop where
  | nowhere {fault : TreeFault} (hnone : disk.replacement fails written p content = .error fault) :
      Written disk fails written p content (disk, .error (.refused fault))
  | done {job : Replacement} (hjob : disk.replacement fails written p content = .ok job)
      (hrun : (job.run disk.root).2 = none) :
      Written disk fails written p content ({ disk with root := job.result disk.root }, .ok ())
  | failed {job : Replacement} {fault : TreeFault}
      (hjob : disk.replacement fails written p content = .ok job)
      (hrun : (job.run disk.root).2 = some fault) :
      Written disk fails written p content
        ({ disk with root := job.result disk.root }, .error (.refused fault))

theorem written (disk : Disk) (fails : Stage → Bool) (written : ByteArray) (p : Path)
    (content : String) :
    Written disk fails written p content (disk.writeWith fails written p content) := by
  unfold writeWith
  split
  · rename_i job hjob
    split
    · exact .done hjob ‹_›
    · exact .failed hjob ‹_›
  · exact .nowhere ‹_›

/-- Writing is writing while nothing is refused. -/
theorem write_eq_writeWith (disk : Disk) (p : Path) (content : String) :
    Storage.write disk p content =
      disk.writeWith (fun _ => false) ByteArray.empty p content := rfl

/-- A write that succeeds has replaced the file at the place that the path leads to. -/
theorem write_eq_ok {disk disk' : Disk} {p : Path} {content : String}
    (h : Storage.write disk p content = (disk', .ok ())) : ∃ place refuses,
      disk.place p = .ok place ∧
        (({ Replacement.ofPlace place content with fails := refuses }).run disk.root).2 = none ∧
          disk' = { disk with root :=
            ({ Replacement.ofPlace place content with fails := refuses }).result disk.root } := by
  have hwritten := written disk (fun _ => false) ByteArray.empty p content
  rw [← write_eq_writeWith, h] at hwritten
  cases hwritten with
  | done hjob hrun =>
    obtain ⟨place, refuses, hplace, -, rfl⟩ := replacement_eq_ok hjob
    exact ⟨place, refuses, hplace, hrun, rfl⟩

/-- Writing leaves the directories as they are. -/
theorem sameDirectories_writeWith (disk : Disk) (fails : Stage → Bool) (left : ByteArray)
    (p : Path) (content : String) :
    disk.root.SameDirectories (disk.writeWith fails left p content).1.root := by
  have hwritten := written disk fails left p content
  generalize disk.writeWith fails left p content = outcome at hwritten ⊢
  cases hwritten with
  | nowhere => exact .refl _
  | done | failed => exact Replacement.sameDirectories_of_mem_run (Replacement.result_mem_run _ _)

theorem sameDirectories_write {disk disk' : Disk} {p : Path} {content : String}
    (h : Storage.write disk p content = (disk', .ok ())) :
    disk.root.SameDirectories disk'.root := by
  have hsame := sameDirectories_writeWith disk (fun _ => false) ByteArray.empty p content
  rwa [← write_eq_writeWith, h] at hsame

instance : Storage.ReadsBack Disk where
  read_of_write hasks hwrite := by
    have hdirectories := sameDirectories_write hwrite
    obtain ⟨place, refuses, hplace, hrun, rfl⟩ := write_eq_ok hwrite
    obtain ⟨-, -, -, hresult⟩ := Replacement.look_result hrun
    refine read_eq_ok_iff.mpr ⟨hasks, place, _, place_eq_ok hdirectories hplace, ?_,
      fromUTF8?_toUTF8 _⟩
    exact (hresult place).trans
      ((if_neg (Replacement.temporaryPlace_ne place).symm).trans (if_pos rfl))

instance : Storage.Lawful Disk where
  read_write hread hwrite := Storage.ReadsBack.read_of_write (read_eq_ok_iff.mp hread).1 hwrite
  isDirectory_write q hread hwrite := by
    have hdirectories := sameDirectories_write hwrite
    obtain ⟨place, refuses, -, -, rfl⟩ := write_eq_ok hwrite
    rw [Bool.eq_iff_iff, isDirectory_iff, isDirectory_iff]
    constructor
    · rintro ⟨found, hfound, hlook⟩
      have hback := place_eq_ok (fun q => (hdirectories q).symm) hfound
      exact ⟨found, hback, (hdirectories found).mp hlook⟩
    · rintro ⟨found, hfound, hlook⟩
      exact ⟨found, place_eq_ok hdirectories hfound, (hdirectories found).mpr hlook⟩

end Disk

end JsonCollections
