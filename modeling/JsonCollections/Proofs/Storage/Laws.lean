import JsonCollections.Storage.Memory

set_option autoImplicit false

/-!
# What a store promises

`Storage.Lawful` is what collections rely on: a file that was there and has been written is read
with the new text, and no path becomes a directory or ceases to be one.  A file that is made anew
may make directories, so nothing is said of it.

The laws of files in memory are proved here, together with what a write leaves of other files.
-/

namespace JsonCollections

/-- Writing a file that is there replaces its text, and leaves the directories as they are. -/
class Storage.Lawful (σ : Type) [Storage σ] : Prop where
  read_write : ∀ {store store' : σ} {p : Path} {old content : String},
    Storage.read store p = .ok old → Storage.write store p content = (store', .ok ()) →
      Storage.read store' p = .ok content
  isDirectory_write : ∀ {store store' : σ} {p : Path} {old content : String} (q : Path),
    Storage.read store p = .ok old → Storage.write store p content = (store', .ok ()) →
      Storage.isDirectory store' q = Storage.isDirectory store q

/-- A text that was written is read back, be the file new or not.  A path that asks for a directory
is not the path of a file. -/
class Storage.ReadsBack (σ : Type) [Storage σ] : Prop where
  read_of_write : ∀ {store store' : σ} {p : Path} {content : String}, p.asksDirectory = false →
    Storage.write store p content = (store', .ok ()) → Storage.read store' p = .ok content

/-! ## Paths -/

namespace Path

theorem sameAs_refl (p : Path) : p.sameAs p = true := (sameAs_iff p p).mpr rfl

theorem sameAs_comm (p q : Path) : p.sameAs q = q.sameAs p := by
  rw [Bool.eq_iff_iff, sameAs_iff, sameAs_iff, eq_comm]

/-- Paths that lead to the same place are the same as the same paths. -/
theorem sameAs_congr {p q : Path} (h : p.sameAs q = true) (r : Path) : p.sameAs r = q.sameAs r := by
  rw [Bool.eq_iff_iff, sameAs_iff, sameAs_iff, (sameAs_iff p q).mp h]

/-- Of paths that differ, only one leads to a given place. -/
theorem not_sameAs_of_sameAs {p q r : Path} (hpq : ¬ p.sameAs q = true) (hpr : p.sameAs r = true) :
    ¬ q.sameAs r = true := by
  intro hqr
  rw [sameAs_congr hpr, sameAs_comm, hqr] at hpq
  exact hpq rfl

end Path

/-! ## Files in memory -/

namespace Memory

/-- The text at a path in a table. -/
theorem find?_setFile (p q : Path) (content : String) (files : List (Path × String)) :
    ((setFile p content files).find? (·.1.sameAs q)).map Prod.snd =
      if p.sameAs q then some content else (files.find? (·.1.sameAs q)).map Prod.snd := by
  induction files with
  | nil =>
    rw [setFile, List.find?_cons]
    cases p.sameAs q <;> rfl
  | cons entry rest ih =>
    obtain ⟨k, old⟩ := entry
    rw [setFile]
    by_cases hk : k.sameAs p = true
    · rw [if_pos hk, List.find?_cons, List.find?_cons, Path.sameAs_congr hk]
      cases p.sameAs q <;> rfl
    · rw [if_neg hk, List.find?_cons, List.find?_cons]
      cases hkq : k.sameAs q with
      | true =>
        -- the paths differ, or the first entry would be the one that is set
        rw [if_neg (Path.not_sameAs_of_sameAs hk hkq)]
      | false => exact ih

/-- Setting the text at a path that is there keeps the paths as they are. -/
theorem map_fst_setFile {p : Path} {files : List (Path × String)}
    (h : (files.find? (·.1.sameAs p)).isSome = true) (content : String) :
    (setFile p content files).map Prod.fst = files.map Prod.fst := by
  induction files with
  | nil => cases h
  | cons entry rest ih =>
    obtain ⟨k, old⟩ := entry
    rw [setFile]
    by_cases hk : k.sameAs p = true
    · rw [if_pos hk]
      rfl
    · rw [List.find?_cons, Bool.eq_false_iff.mpr hk] at h
      rw [if_neg hk, List.map_cons, ih h, List.map_cons]

theorem get?_put (store : Memory) (p q : Path) (content : String) :
    (store.put p content).get? q = if p.sameAs q then some content else store.get? q :=
  find?_setFile p q content store.files

/-- Setting the text at a path that is there leaves the directories as they are. -/
theorem isDirectory_put {store : Memory} {p : Path} (h : (store.get? p).isSome = true)
    (content : String) (q : Path) :
    Storage.isDirectory (store.put p content) q = Storage.isDirectory store q := by
  have hpaths := map_fst_setFile (Option.isSome_map.symm.trans h) content
  have hany : ∀ files : List (Path × String),
      (files.any fun entry => q.isAbove entry.1) = (files.map Prod.fst).any q.isAbove := by
    intro files
    rw [List.any_map]
    rfl
  change (setFile p content store.files).any _ = store.files.any _
  rw [hany, hany, hpaths]

/-- Whether a path leads to a directory goes by its components. -/
theorem isDirectory_congr (store : Memory) {p q : Path} (h : p.sameAs q = true) :
    Storage.isDirectory store p = Storage.isDirectory store q := by
  have habove : ∀ r, p.isAbove r = q.isAbove r := by
    intro r
    unfold Path.isAbove
    rw [Path.sameAs_congr h, (Path.sameAs_iff p q).mp h]
  simp only [Storage.isDirectory, habove]

theorem write_eq (store : Memory) (p : Path) (content : String) :
    Storage.write store p content =
      if store.disabled then (store, .error .disabled)
      else ({ store.put p content with writes := store.writes + 1 }, .ok ()) := rfl

theorem read_eq_ok_iff {store : Memory} {p : Path} {text : String} :
    Storage.read store p = .ok text ↔ store.get? p = some text := by
  simp only [Storage.read]
  cases store.get? p with
  | none => exact ⟨nofun, nofun⟩
  | some content => rw [Except.ok.injEq, Option.some.injEq]

/-- A write that succeeds has put the text at the path. -/
theorem write_eq_ok {store store' : Memory} {p : Path} {content : String}
    (h : Storage.write store p content = (store', .ok ())) :
    store' = { store.put p content with writes := store.writes + 1 } := by
  rw [write_eq] at h
  split at h
  · cases (Prod.mk.inj h).2
  · exact (Prod.mk.inj h).1.symm

/-- A write that fails has changed nothing. -/
theorem write_eq_error {store store' : Memory} {p : Path} {content : String} {fault : WriteFault}
    (h : Storage.write store p content = (store', .error fault)) : store' = store := by
  rw [write_eq] at h
  split at h
  · exact (Prod.mk.inj h).1.symm
  · cases (Prod.mk.inj h).2

/-- Writing succeeds as long as it is not switched off. -/
theorem disabled_of_write {store store' : Memory} {p : Path} {content : String}
    (h : Storage.write store p content = (store', .ok ())) : store.disabled = false := by
  rw [write_eq] at h
  split at h
  · cases (Prod.mk.inj h).2
  · exact Bool.eq_false_iff.mpr ‹_›

theorem disabled_of_write_error {store store' : Memory} {p : Path} {content : String}
    {fault : WriteFault} (h : Storage.write store p content = (store', .error fault)) :
    store.disabled = true := by
  rw [write_eq] at h
  split at h
  · assumption
  · cases (Prod.mk.inj h).2

instance : Storage.ReadsBack Memory where
  read_of_write _ hwrite := by
    rw [write_eq_ok hwrite, read_eq_ok_iff]
    exact (get?_put _ _ _ _).trans (if_pos (Path.sameAs_refl _))

instance : Storage.Lawful Memory where
  read_write _ hwrite := by
    rw [write_eq_ok hwrite, read_eq_ok_iff]
    exact (get?_put _ _ _ _).trans (if_pos (Path.sameAs_refl _))
  isDirectory_write q hread hwrite := by
    rw [write_eq_ok hwrite]
    exact isDirectory_put (Option.isSome_of_eq_some (read_eq_ok_iff.mp hread)) _ q

end Memory

end JsonCollections
