import JsonCollections.Proofs.Storage.Faults

set_option autoImplicit false

/-!
# Replacing a file that is there

A replacement is done if the target is a file in a directory and nothing stands in the way of its
temporary sibling (`Replacement.run_eq_none`).  Each stage finds the tree as the stage before has
left it, so `Node.look` of the places involved is carried from stage to stage.
-/

namespace JsonCollections

namespace Node

/-! ## Changes that are allowed -/

/-- What is seen through a place is seen from what is there. -/
theorem look_append {root node : Node} {front : List String} (h : root.walk front = .ok node)
    (rest : List String) : root.look (front ++ rest) = node.look rest := by
  rw [look, walk_append, h]
  rfl

/-- What is at a name in a directory. -/
theorem look_concat {root : Node} {front : List String} {entries : List (String × Node)}
    {name : String} (hfront : root.walk front = .ok (.directory entries))
    (hname : name.utf8ByteSize ≤ maxNameBytes) :
    root.look (front ++ [name]) = (Entries.get? entries name).map content? := by
  rw [look_append hfront, look_directory_cons, if_neg (Nat.not_lt.mpr hname)]
  cases Entries.get? entries name with
  | none => rfl
  | some node => cases node <;> rfl

/-- What can be changed in a directory can be changed in the tree. -/
theorem exists_alter {change : Option Node → Except TreeFault (Option Node)} {root : Node}
    {front : List String} {entries : List (String × Node)} {name : String} {changed : Option Node}
    (hfront : root.walk front = .ok (.directory entries))
    (hname : name.utf8ByteSize ≤ maxNameBytes)
    (hchange : change (Entries.get? entries name) = .ok changed) :
    ∃ root', root.alter change (front ++ [name]) = .ok root' := by
  induction front generalizing root with
  | nil =>
    obtain rfl : root = .directory entries := by cases root <;> exact Except.ok.inj hfront
    refine ⟨.directory (setEntry entries name changed), ?_⟩
    rw [List.nil_append, alter, if_neg (Nat.not_lt.mpr hname), hchange]
    rfl
  | cons first rest ih =>
    cases root with
    | file content => cases hfront
    | directory es =>
      rw [walk] at hfront
      split at hfront
      · cases hfront
      · rename_i hfirst
        split at hfront
        · rename_i node hentry
          obtain ⟨node', hnode'⟩ := ih hfront
          obtain ⟨next, more, hmore⟩ :=
            List.exists_cons_of_ne_nil (List.concat_ne_nil name rest)
          refine ⟨.directory (Entries.insert es first node'), ?_⟩
          rw [hmore] at hnode'
          rw [List.cons_append, hmore, alter, if_neg hfirst, hentry]
          simp only [hnode']
          rfl
        · cases hfront

section

variable {root : Node} {front : List String} {name : String}
  (hfront : root.look front = some none) (hname : name.utf8ByteSize ≤ maxNameBytes)

include hfront hname

/-- A file can be put into a directory where no directory has its name. -/
theorem exists_putFile (hfree : root.look (front ++ [name]) ≠ some none) (content : ByteArray) :
    ∃ root', root.putFile (front ++ [name]) content = .ok root' := by
  obtain ⟨entries, hentries⟩ := look_eq_directory_iff.mp hfront
  rw [look_concat hentries hname] at hfree
  refine @exists_alter _ _ _ _ _ (some (.file content)) hentries hname ?_
  cases hentry : Entries.get? entries name with
  | none => rfl
  | some node =>
    cases node with
    | file old => rfl
    | directory es => exact absurd (congrArg (Option.map content?) hentry) hfree

/-- A file in a directory can be removed. -/
theorem exists_removeFile {content : ByteArray}
    (hfile : root.look (front ++ [name]) = some (some content)) :
    ∃ root', root.removeFile (front ++ [name]) = .ok root' := by
  obtain ⟨entries, hentries⟩ := look_eq_directory_iff.mp hfront
  rw [look_concat hentries hname] at hfile
  refine @exists_alter _ _ _ _ _ none hentries hname ?_
  cases hentry : Entries.get? entries name with
  | none =>
    rw [hentry] at hfile
    cases hfile
  | some node =>
    rw [hentry] at hfile
    cases node with
    | file old => rfl
    | directory es => cases hfile

end

end Node

namespace Replacement

theorem length_temporaryName (name : String) :
    (temporaryName name).utf8ByteSize = name.utf8ByteSize + 5 := by
  have hdot : ".".utf8ByteSize = 1 := rfl
  have hending : ".tmp".utf8ByteSize = 4 := rfl
  rw [temporaryName, String.utf8ByteSize_append, String.utf8ByteSize_append, hdot, hending]
  omega

theorem temporaryPlace_append (place : List String) {names : List String} (hne : names ≠ []) :
    temporaryPlace (place ++ names) = place ++ temporaryPlace names := by
  obtain ⟨front, name, rfl⟩ : ∃ front name, names = front ++ [name] :=
    ⟨_, _, (List.dropLast_append_getLast hne).symm⟩
  rw [← List.append_assoc, temporaryPlace_concat, temporaryPlace_concat, List.append_assoc]

/-- A replacement in a directory is done if there is room for the temporary file. -/
theorem run_eq_none {root : Node} {front : List String} {name : String}
    (hfront : root.look front = some none)
    (hname : (temporaryName name).utf8ByteSize ≤ Node.maxNameBytes)
    (htarget : root.look (front ++ [name]) ≠ some none)
    (htemporary : root.look (front ++ [temporaryName name]) ≠ some none) (text : String)
    (written : ByteArray) :
    (({ ofPlace (front ++ [name]) text with written }).run root).2 = none := by
  have hshorter : name.utf8ByteSize ≤ Node.maxNameBytes := by
    rw [length_temporaryName] at hname
    omega
  have hbelow : ∀ s : String, front ≠ front ++ [s] :=
    fun s heq => List.cons_ne_nil s [] (List.self_eq_append_right.mp heq)
  have hdistinct : front ++ [name] ≠ front ++ [temporaryName name] := by
    rw [← temporaryPlace_concat]
    exact (temporaryPlace_ne _).symm
  obtain ⟨created, hcreate⟩ := Node.exists_putFile hfront hname htemporary ByteArray.empty
  obtain ⟨-, hcreated⟩ := Node.look_putFile hcreate
  have hfrontCreated : created.look front = some none := by
    rw [hcreated, if_neg (hbelow _), hfront]
  have hfreeCreated : created.look (front ++ [temporaryName name]) ≠ some none := by
    rw [hcreated, if_pos rfl]
    nofun
  obtain ⟨filled, hfill⟩ := Node.exists_putFile hfrontCreated hname hfreeCreated text.toUTF8
  obtain ⟨-, hfilled⟩ := Node.look_putFile hfill
  have hfrontFilled : filled.look front = some none := by
    rw [hfilled, if_neg (hbelow _), hfrontCreated]
  have htargetFilled : filled.look (front ++ [name]) ≠ some none := by
    rw [hfilled, if_neg hdistinct, hcreated, if_neg hdistinct]
    exact htarget
  obtain ⟨moved, hmove⟩ := Node.exists_putFile hfrontFilled hshorter htargetFilled text.toUTF8
  obtain ⟨-, hmoved⟩ := Node.look_putFile hmove
  have hfrontMoved : moved.look front = some none := by
    rw [hmoved, if_neg (hbelow _), hfrontFilled]
  have htemporaryMoved : moved.look (front ++ [temporaryName name]) = some (some text.toUTF8) := by
    rw [hmoved, if_neg hdistinct.symm, hfilled, if_pos rfl]
  obtain ⟨renamed, hremove⟩ := Node.exists_removeFile hfrontMoved hname htemporaryMoved
  have hsibling : filled.walk (front ++ [temporaryName name]) = .ok (.file text.toUTF8) := by
    rw [← Node.look_eq_file_iff, hfilled, if_pos rfl]
  have hrename : filled.moveFile (front ++ [temporaryName name]) (front ++ [name]) =
      .ok renamed := by
    simp only [Node.moveFile, hsibling, bind, Except.bind, hmove, hremove]
  simp only [run, Stage.all, runStages, runStage, ofPlace, temporaryPlace_concat, hcreate, hfill,
    hrename, settle]

/-- Without an old temporary file nothing but the target is changed. -/
theorem look_result_of_free {root : Node} {place : List String} {text : String}
    (hrun : ((ofPlace place text).run root).2 = none)
    (hfree : root.look (temporaryPlace place) = none) (q : List String) :
    ((ofPlace place text).result root).look q =
      if q = place then some (some text.toUTF8) else root.look q := by
  obtain ⟨-, -, -, hresult⟩ := look_result hrun
  refine (hresult q).trans ?_
  change (if q = temporaryPlace place then _ else _) = _
  have hother : temporaryPlace place ≠ place := temporaryPlace_ne place
  split
  · rename_i hq
    rw [hq, if_neg hother, hfree]
  · rfl

end Replacement

end JsonCollections
