import JsonCollections.Proofs.Storage.Disk

set_option autoImplicit false

/-!
# Which files a write changes

A store has files at places (`Storage.Places`).  A write that fails leaves the files at all places
as they were, and one that succeeds changes the file at one place.  The hidden sibling that a file
on a disk has while it is written does not count.

On a disk every stage of a write may be refused from outside.  Then the target is as it was, since
only the last stage changes it, and that stage is done or not (`Replacement.look_result_of_fault`).
-/

namespace JsonCollections

/-- A store with files at places.  A path leads to a place at most, and a file may have a hidden
sibling that writes use. -/
class Storage.Places (σ : Type) [Storage σ] where
  /-- where a file can be -/
  Place : Type
  /-- the place that a path leads to -/
  place? : σ → Path → Option Place
  /-- the content of the file at a place -/
  content? : σ → Place → Option ByteArray
  /-- the hidden sibling of a file -/
  hidden? : Place → Option Place
  /-- a text that is read is the content of the file that the path leads to -/
  content?_of_read : ∀ {store : σ} {p : Path} {text : String}, Storage.read store p = .ok text →
    ∃ place content, place? store p = some place ∧ content? store place = some content ∧
      String.fromUTF8? content = some text
  /-- a write that fails leaves all files as they are -/
  content?_of_failed : ∀ {store store' : σ} {p : Path} {text : String} {fault : WriteFault},
    Storage.write store p text = (store', .error fault) →
      ∀ q, (∀ place, place? store p = some place → hidden? place ≠ some q) →
        content? store' q = content? store q
  /-- a write that succeeds puts the text into the file that the path leads to, and leaves all other
  files as they are -/
  content?_of_written : ∀ {store store' : σ} {p : Path} {text : String},
    Storage.write store p text = (store', .ok ()) →
      ∃ place, place? store p = some place ∧ content? store' place = some text.toUTF8 ∧
        ∀ q, q ≠ place → hidden? place ≠ some q → content? store' q = content? store q

/-! ## Places in memory -/

namespace Memory

/-- The content of the file with these components. -/
def contentAt? (store : Memory) (place : List Component) : Option ByteArray :=
  (store.files.find? (·.1.components == place)).map (·.2.toUTF8)

theorem contentAt?_components (store : Memory) (p : Path) :
    store.contentAt? p.components = (store.get? p).map String.toUTF8 := by
  unfold contentAt? get?
  rw [Option.map_map]
  rfl

theorem contentAt?_put (store : Memory) (p : Path) (text : String) {place : List Component}
    (hplace : place ≠ p.components) :
    (store.put p text).contentAt? place = store.contentAt? place := by
  unfold contentAt? put
  induction store.files with
  | nil =>
    rw [setFile, List.find?_cons, beq_false_of_ne hplace.symm]
  | cons entry rest ih =>
    obtain ⟨k, old⟩ := entry
    simp only [setFile]
    by_cases hk : k.sameAs p = true
    · have hkey : (k.components == place) = false := by
        rw [(Path.sameAs_iff k p).mp hk]
        exact beq_false_of_ne hplace.symm
      rw [if_pos hk, List.find?_cons, List.find?_cons, hkey]
    · rw [if_neg hk, List.find?_cons, List.find?_cons]
      cases k.components == place with
      | true => rfl
      | false => exact ih

instance : Storage.Places Memory where
  Place := List Component
  place? _ p := some p.components
  content? := contentAt?
  hidden? _ := none
  content?_of_read {store p text} h := by
    refine ⟨p.components, text.toUTF8, rfl, ?_, Disk.fromUTF8?_toUTF8 text⟩
    rw [contentAt?_components, read_eq_ok_iff.mp h, Option.map_some]
  content?_of_failed h q _ := by rw [write_eq_error h]
  content?_of_written {store store' p text} h := by
    rw [write_eq_ok h]
    refine ⟨p.components, rfl, ?_, fun q hq _ => contentAt?_put store p text hq⟩
    have hget : (store.put p text).get? p = some text := by
      rw [get?_put, if_pos (Path.sameAs_refl p)]
    change (store.put p text).contentAt? p.components = _
    rw [contentAt?_components, hget, Option.map_some]

end Memory

/-! ## Replacements that fail -/

namespace Replacement

theorem settle_eq_some {root next : Node} {changed : Except TreeFault Node} {fault : TreeFault}
    (h : settle root changed = (next, some fault)) : next = root := by
  cases changed with
  | ok found => cases (Prod.mk.inj h).2
  | error found => exact (Prod.mk.inj h).1.symm

theorem look_settle_putFile {root : Node} {place q : List String} (hq : q ≠ place)
    (content : ByteArray) : (settle root (root.putFile place content)).1.look q = root.look q := by
  cases hput : root.putFile place content with
  | error fault => rfl
  | ok changed =>
    obtain ⟨-, hlook⟩ := Node.look_putFile hput
    exact (hlook q).trans (if_neg hq)

theorem look_tidy {job : Replacement} {root : Node} {q : List String} (hq : q ≠ job.temporary) :
    (job.tidy root).look q = root.look q := by
  unfold tidy
  cases hremove : root.removeFile job.temporary with
  | error fault => rfl
  | ok changed =>
    obtain ⟨-, hlook⟩ := Node.look_removeFile hremove
    exact (hlook q).trans (if_neg hq)

/-- A stage changes the temporary file only, unless it is the last one and it is done. -/
theorem look_runStage {job : Replacement} {root next : Node} {stage : Stage}
    {fault? : Option TreeFault} (h : job.runStage root stage = (next, fault?))
    (hstage : stage = .rename → fault? ≠ none) {q : List String} (hq : q ≠ job.temporary) :
    next.look q = root.look q := by
  have hnext : next = (job.runStage root stage).1 := (congrArg Prod.fst h).symm
  unfold runStage at h hnext
  split at hnext
  · rw [hnext, look_settle_putFile hq]
  · rw [hnext, look_settle_putFile hq]
  · rw [hnext]
  · rename_i hfails
    simp only [hfails] at h
    cases fault? with
    | none => exact absurd rfl (hstage rfl)
    | some fault => rw [settle_eq_some h]
  · rw [hnext, look_settle_putFile hq]
  · rw [hnext]

/-- The temporary file aside, a tree that stages lead to is the one that they began with, unless all
of them are done and the tree is the one that they leave. -/
theorem look_of_mem_runStages {job : Replacement} {stages : List Stage}
    (hstages : ∀ stage ∈ stages, stage ≠ .rename) {root between : Node}
    (h : between ∈ (job.runStages (stages ++ [.rename]) root).1) :
    (∀ q, q ≠ job.temporary → between.look q = root.look q) ∨
      (job.runStages (stages ++ [.rename]) root).2 = none ∧
        (job.runStages (stages ++ [.rename]) root).1.getLast? = some between := by
  have hfailed : ∀ {before stage next fault}, job.runStage before stage = (next, some fault) →
      between ∈ [next, job.tidy next] → ∀ q, q ≠ job.temporary → between.look q = before.look q := by
    intro before stage next fault hstage hmem q hq
    have hnext := look_runStage hstage (fun _ => nofun) hq
    rcases List.mem_cons.mp hmem with rfl | htidied
    · exact hnext
    · rw [List.mem_singleton.mp htidied, look_tidy hq, hnext]
  induction stages generalizing root with
  | nil =>
    simp only [List.nil_append, runStages] at h ⊢
    split at h
    · rename_i next hdone
      exact .inr ⟨rfl, congrArg some (List.mem_singleton.mp h).symm⟩
    · exact .inl (hfailed ‹_› h)
  | cons stage rest ih =>
    obtain ⟨hstage, hrest⟩ := List.forall_mem_cons.mp hstages
    simp only [List.cons_append, runStages] at h ⊢
    split at h
    · rename_i next hdone
      have hnext : ∀ q, q ≠ job.temporary → next.look q = root.look q :=
        fun q hq => look_runStage hdone (fun heq => absurd heq hstage) hq
      rcases List.mem_cons.mp h with rfl | hlater
      · exact .inl hnext
      · refine (ih hrest hlater).imp (fun hsame q hq => (hsame q hq).trans (hnext q hq)) ?_
        rintro ⟨hfault, hlast⟩
        exact ⟨hfault, by rw [List.getLast?_cons, hlast, Option.getD_some]⟩
    · exact .inl (hfailed ‹_› h)

/-- At every point of a run everything but the temporary file is as it was, unless the run is done
and the point is its end. -/
theorem look_of_mem_run {job : Replacement} {root between : Node} (h : between ∈ (job.run root).1) :
    (∀ q, q ≠ job.temporary → between.look q = root.look q) ∨
      (job.run root).2 = none ∧ between = job.result root := by
  have hmem : between ∈ root :: (job.runStages Stage.all root).1 := h
  rcases List.mem_cons.mp hmem with rfl | hlater
  · exact .inl fun _ _ => rfl
  · have hstages : ∀ stage ∈ [Stage.create, .fill, .flush], stage ≠ .rename := by decide
    refine (look_of_mem_runStages hstages hlater).imp_right ?_
    rintro ⟨hfault, hlast⟩
    refine ⟨hfault, ?_⟩
    change between = ((root :: (job.runStages Stage.all root).1).getLast?).getD root
    have hlast : (job.runStages Stage.all root).1.getLast? = some between := hlast
    rw [List.getLast?_cons, hlast]
    rfl

/-- A replacement that fails leaves everything but the temporary file as it was. -/
theorem look_result_of_fault {job : Replacement} {root : Node} {fault : TreeFault}
    (h : (job.run root).2 = some fault) {q : List String} (hq : q ≠ job.temporary) :
    (job.result root).look q = root.look q := by
  rcases look_of_mem_run (job.result_mem_run root) with hsame | ⟨hdone, -⟩
  · exact hsame q hq
  · rw [hdone] at h
    cases h

end Replacement

/-! ## Places on a disk -/

namespace Disk

/-- The content of the file at a place. -/
def contentAt? (disk : Disk) (place : List String) : Option ByteArray := (disk.root.look place).join

theorem contentAt?_of_read {disk : Disk} {p : Path} {text : String}
    (h : Storage.read disk p = .ok text) : ∃ place content, (disk.place p).toOption = some place ∧
      disk.contentAt? place = some content ∧ String.fromUTF8? content = some text := by
  obtain ⟨-, place, content, hplace, hlook, htext⟩ := read_eq_ok_iff.mp h
  refine ⟨place, content, ?_, ?_, htext⟩
  · rw [hplace]
    rfl
  · rw [contentAt?, hlook]
    rfl

variable {disk disk' : Disk} {fails : Stage → Bool} {left : ByteArray} {p : Path} {text : String}

theorem contentAt?_of_failed {fault : WriteFault}
    (h : disk.writeWith fails left p text = (disk', .error fault)) (q : List String)
    (hq : ∀ place, (disk.place p).toOption = some place →
      some (Replacement.temporaryPlace place) ≠ some q) :
    disk'.contentAt? q = disk.contentAt? q := by
  have hwritten := written disk fails left p text
  rw [h] at hwritten
  cases hwritten with
  | nowhere => rfl
  | failed hjob hrun =>
    obtain ⟨place, refuses, hplace, -, rfl⟩ := replacement_eq_ok hjob
    have hne : q ≠ Replacement.temporaryPlace place := fun heq =>
      hq place (congrArg Except.toOption hplace) (congrArg some heq.symm)
    exact congrArg Option.join (Replacement.look_result_of_fault hrun hne)

/-- A write that is done has put the text at the place that the path leads to, and nothing is left
at that of the temporary sibling. -/
theorem look_of_written (h : disk.writeWith fails left p text = (disk', .ok ())) :
    ∃ place, disk.place p = .ok place ∧ (∀ stage, fails stage = false) ∧
      ∀ q, disk'.root.look q =
        if q = Replacement.temporaryPlace place then none
        else if q = place then some (some text.toUTF8) else disk.root.look q := by
  have hwritten := written disk fails left p text
  rw [h] at hwritten
  cases hwritten with
  | done hjob hrun =>
    obtain ⟨place, refuses, hplace, hrefuses, rfl⟩ := replacement_eq_ok hjob
    obtain ⟨-, -, -, hlook⟩ := Replacement.look_result hrun
    refine ⟨place, hplace, fun stage => Bool.eq_false_iff.mpr fun hstage => ?_, hlook⟩
    have hdone : refuses stage = false := Replacement.fails_of_run hrun stage
    rw [hrefuses stage hstage] at hdone
    cases hdone

theorem contentAt?_of_written (h : disk.writeWith fails left p text = (disk', .ok ())) :
    ∃ place, (disk.place p).toOption = some place ∧ disk'.contentAt? place = some text.toUTF8 ∧
      ∀ q, q ≠ place → some (Replacement.temporaryPlace place) ≠ some q →
        disk'.contentAt? q = disk.contentAt? q := by
  obtain ⟨place, hplace, -, hlook⟩ := look_of_written h
  refine ⟨place, congrArg Except.toOption hplace, ?_, fun q hq hhidden => ?_⟩
  · have htarget := (hlook place).trans (if_neg (Replacement.temporaryPlace_ne place).symm)
    exact congrArg Option.join (htarget.trans (if_pos rfl))
  · have hother := (hlook q).trans (if_neg fun heq => hhidden (congrArg some heq.symm))
    exact congrArg Option.join (hother.trans (if_neg hq))

instance : Storage.Places Disk where
  Place := List String
  place? disk p := (disk.place p).toOption
  content? := contentAt?
  hidden? place := some (Replacement.temporaryPlace place)
  content?_of_read := contentAt?_of_read
  content?_of_failed h := contentAt?_of_failed h
  content?_of_written h := contentAt?_of_written h

end Disk

/-- A disk on which the system refuses some stages of every write. -/
structure FaultyDisk where
  disk : Disk
  fails : Stage → Bool
  /-- what is left in the temporary file if the system refuses to fill it -/
  written : ByteArray := ByteArray.empty

namespace FaultyDisk

instance : Storage FaultyDisk where
  read store p := Storage.read store.disk p
  write store p text :=
    let (disk, result) := store.disk.writeWith store.fails store.written p text
    ({ store with disk }, result)
  isDirectory store p := Storage.isDirectory store.disk p
  files store p := Storage.files store.disk p

theorem writeWith_eq {store store' : FaultyDisk} {p : Path} {text : String}
    {result : Except WriteFault Unit} (h : Storage.write store p text = (store', result)) :
    store.disk.writeWith store.fails store.written p text = (store'.disk, result) := by
  obtain ⟨hstore, hresult⟩ := Prod.mk.inj h
  exact Prod.ext (congrArg disk hstore) hresult

instance : Storage.Places FaultyDisk where
  Place := List String
  place? store p := (store.disk.place p).toOption
  content? store := store.disk.contentAt?
  hidden? place := some (Replacement.temporaryPlace place)
  content?_of_read h := Disk.contentAt?_of_read h
  content?_of_failed h := Disk.contentAt?_of_failed (writeWith_eq h)
  content?_of_written h := Disk.contentAt?_of_written (writeWith_eq h)

end FaultyDisk

end JsonCollections
