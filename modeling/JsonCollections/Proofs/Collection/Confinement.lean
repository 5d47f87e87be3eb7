import JsonCollections.Collection.Basic
import JsonCollections.Proofs.Collection.Location
import JsonCollections.Proofs.Text

set_option autoImplicit false

/-!
# No URL path leads out of the base directory

A URL path may hold empty segments, dots and two dots anywhere, and `.json` is added to its text and
not to one of its names.  Whatever it is, the file behind it lies below the base directory
(`confined`): the components of its path are those of the base directory and then names only.
-/

namespace JsonCollections

namespace Path

theorem text_ofChars (s : List Char) : (ofChars s).text = String.ofList s := by
  have hsegments : (s.splitOn '/').map (String.toList ∘ String.ofList) = s.splitOn '/' := by
    have hid : String.toList ∘ String.ofList = id := funext fun _ => String.toList_ofList
    rw [hid, List.map_id]
  rw [text, ofChars, List.map_map, hsegments, List.intercalate_splitOn]

/-- Segments without two dots are names, or do not count. -/
theorem exists_names {segments : List String} (h : ".." ∉ segments) :
    ∃ names : List String, segments.filterMap innerComponent? = names.map .name := by
  induction segments with
  | nil => exact ⟨[], rfl⟩
  | cons s rest ih =>
    rw [List.mem_cons, not_or] at h
    obtain ⟨hs, hrest⟩ := h
    obtain ⟨names, hnames⟩ := ih hrest
    by_cases hskip : s = "" ∨ s = "."
    · have hnone : innerComponent? s = none := if_pos hskip
      exact ⟨names, by rw [List.filterMap_cons_none hnone, hnames]⟩
    · refine ⟨s :: names, ?_⟩
      have hname : innerComponent? s = some (.name s) := by
        rw [innerComponent?, if_neg hskip, if_neg (Ne.symm hs)]
      rw [List.filterMap_cons_some hname, hnames, List.map_cons]

end Path

namespace Location

/-- A relative path consists of names only if it does not begin with a dot and has no two dots. -/
theorem isPlain_iff {first : String} {rest : List String} (hfirst : first ≠ "") :
    isPlain ⟨first :: rest⟩ = true ↔ first ≠ "." ∧ ".." ∉ first :: rest := by
  have hroot : first :: rest ≠ [""] := fun heq => hfirst (List.cons.inj heq).1
  unfold isPlain
  rw [Path.components_eq_ahead hroot]
  by_cases hdot : first = "."
  · subst hdot
    simp [Path.ahead]
  · rw [Path.ahead_name hfirst hdot]
    have hname : Path.innerComponent? first ≠ none := by
      rw [Path.innerComponent?, if_neg (not_or.mpr ⟨hfirst, hdot⟩)]
      split <;> nofun
    rw [Bool.and_eq_true, decide_eq_true_eq, List.all_eq_true]
    constructor
    · rintro ⟨-, hall⟩
      exact ⟨hdot, fun hup => by simpa using hall .up (List.mem_filterMap.mpr ⟨"..", hup, rfl⟩)⟩
    · rintro ⟨-, hup⟩
      constructor
      · intro hnil
        exact hname (List.filterMap_eq_nil_iff.mp hnil first List.mem_cons_self)
      · obtain ⟨names, hnames⟩ := Path.exists_names hup
        rw [hnames, List.forall_mem_map]
        exact fun _ _ => rfl

variable {σ : Type} [Storage σ]

/-- What is left of a URL path without the slashes at its ends. -/
theorem trimmed_relative (urlPath : String) : ∃ before after,
    urlPath.toList = before ++ (relative urlPath).text.toList ++ after ∧
      (∀ c ∈ before ++ after, c = '/') ∧ (relative urlPath).text.toList.head? ≠ some '/' ∧
        (relative urlPath).text.toList.getLast? ≠ some '/' := by
  obtain ⟨before, after, hparts, hbefore, hafter, hhead, hlast⟩ :=
    Text.exists_strip (· == '/') urlPath.toList
  rw [relative, Path.text_ofChars, String.toList_ofList]
  refine ⟨before, after, hparts, ?_, ?_, ?_⟩
  · intro c hc
    rcases List.mem_append.mp hc with hc | hc
    · exact beq_iff_eq.mp (hbefore c hc)
    · exact beq_iff_eq.mp (hafter c hc)
  · exact fun hslash => absurd (hhead _ hslash) (by decide)
  · exact fun hslash => absurd (hlast _ hslash) (by decide)

/-- What is left is empty, or its first segment is not. -/
theorem relative_cases (urlPath : String) :
    ((relative urlPath).text = "" ∧ relative urlPath = ⟨[""]⟩) ∨ ((relative urlPath).text ≠ "" ∧
      ∃ first rest, relative urlPath = ⟨first :: rest⟩ ∧ first ≠ "") := by
  obtain ⟨-, -, -, -, hhead, -⟩ := trimmed_relative urlPath
  rw [relative, Path.text_ofChars, String.toList_ofList] at hhead
  rw [relative, Path.text_ofChars]
  cases htext : Text.strip (· == '/') urlPath.toList with
  | nil => exact .inl ⟨rfl, by rw [Path.ofChars, List.splitOn_nil]; rfl⟩
  | cons c s =>
    rw [htext] at hhead
    have hslash : (c == '/') = false := beq_false_of_ne fun heq => hhead (by rw [heq]; rfl)
    obtain ⟨first, rest, hrest⟩ := List.exists_cons_of_ne_nil (List.splitOn_ne_nil '/' s)
    have hsplit : (c :: s).splitOn '/' = (c :: first) :: rest := by
      change (c :: s).splitOnP (· == '/') = _
      rw [List.splitOnP_cons_eq_if_modifyHead, hslash]
      exact congrArg (List.modifyHead (c :: ·)) hrest
    refine .inr ⟨?_, String.ofList (c :: first), rest.map String.ofList, ?_, ?_⟩
    · exact fun hempty => List.cons_ne_nil c s (String.ofList_inj.mp hempty)
    · rw [Path.ofChars, hsplit, List.map_cons]
    · exact fun hempty => List.cons_ne_nil c first (String.ofList_inj.mp hempty)

theorem isPlain_relative_iff {urlPath : String} : isPlain (relative urlPath) = true ↔
    ¬ ((relative urlPath).text = "" ∨ ".." ∈ (relative urlPath).segments ∨
      (relative urlPath).segments.head? = some ".") := by
  rcases relative_cases urlPath with ⟨hempty, hsegments⟩ | ⟨hne, first, rest, hsegments, hfirst⟩
  · rw [hsegments]
    exact ⟨nofun, fun h => absurd (.inl rfl) h⟩
  · rw [hsegments] at hne ⊢
    rw [isPlain_iff hfirst, not_or, not_or, List.head?_cons, Option.some.injEq]
    exact ⟨fun h => ⟨hne, h.2, h.1⟩, fun h => ⟨h.2.2, h.2.1⟩⟩

theorem resolve_eq_none_iff {store : σ} {base : Path} {urlPath : String} :
    resolve store base urlPath = none ↔ isPlain (relative urlPath) = false := by
  unfold resolve
  simp only
  cases isPlain (relative urlPath) with
  | false => exact ⟨fun _ => rfl, fun _ => rfl⟩
  | true =>
    refine ⟨fun hnone => ?_, nofun⟩
    rw [if_pos rfl] at hnone
    split at hnone <;> cases hnone

/-- What is known of the file behind a URL path. -/
structure Confined (store : σ) (base : Path) (urlPath : String) : Prop where
  /-- the URL path is read without the slashes at its ends -/
  trimmed : ∃ before after, urlPath.toList = before ++ (relative urlPath).text.toList ++ after ∧
    (∀ c ∈ before ++ after, c = '/') ∧ (relative urlPath).text.toList.head? ≠ some '/' ∧
      (relative urlPath).text.toList.getLast? ≠ some '/'
  /-- there is no file exactly if the rest is empty, goes up or begins with a dot -/
  none_iff : resolve store base urlPath = none ↔ (relative urlPath).text = "" ∨
    ".." ∈ (relative urlPath).segments ∨ (relative urlPath).segments.head? = some "."
  /-- without a file no collection is found -/
  notFound : resolve store base urlPath = none → ∀ maxItems,
    Collection.load store ⟨base, maxItems⟩ urlPath = .error .notFound
  /-- the components of the file are those of the base directory and then names, of which the last
  ends in `.json` -/
  inside : ∀ {file}, resolve store base urlPath = some file → ∃ names stem,
    file.components = base.components ++ (names ++ [stem ++ fileSuffix]).map .name
  /-- the file lies in the place of the URL path exactly if that is a directory -/
  items_iff : ∀ {file}, resolve store base urlPath = some file →
    (file.sameAs ((place base urlPath).child itemsFile) = true ↔
      Storage.isDirectory store (place base urlPath) = true)

/-- Segments without two dots, and a last one that is made longer by `.json`. -/
theorem exists_components_withSuffix (base : Path) {first : String} {rest : List String}
    (hempty : first ≠ "") (hdot : first ≠ ".") (hup : ".." ∉ first :: rest) :
    ∃ (names : List String) (stem : String),
      ((base.join ⟨first :: rest⟩).withSuffix fileSuffix).components =
        base.components ++ (names ++ [stem ++ fileSuffix]).map .name := by
  obtain ⟨names, hnames⟩ :=
    Path.exists_names fun hmem => hup ((List.dropLast_sublist _).subset hmem)
  refine ⟨names, (base.above ++ first :: rest).getLast?.getD "", ?_⟩
  have hfront : (base.above ++ first :: rest).dropLast = base.above ++ (first :: rest).dropLast :=
    List.dropLast_append_of_ne_nil (List.cons_ne_nil first rest)
  have hhead : ∀ s, (first :: rest).dropLast.head? = some s → s ≠ "" ∧ s ≠ "." := by
    intro s hs
    cases rest with
    | nil => cases hs
    | cons second others =>
      cases hs
      exact ⟨hempty, hdot⟩
  have hconcat := Path.components_concat (base.above ++ (first :: rest).dropLast)
    (innerComponent?_fileSuffix ((base.above ++ first :: rest).getLast?.getD ""))
  rw [← hfront] at hconcat
  refine hconcat.trans ?_
  rw [hfront, Path.ahead_above_append base hhead, hnames, List.map_append, List.append_assoc,
    List.map_singleton]

/-- Wherever a URL path leads to, it is inside the base directory. -/
theorem confined (store : σ) (base : Path) (urlPath : String) : Confined store base urlPath := by
  constructor
  · exact trimmed_relative urlPath
  · rw [resolve_eq_none_iff, ← Bool.not_eq_true, isPlain_relative_iff, not_not]
  · intro hnone maxItems
    simp only [Collection.load, hnone]
  · intro file hfile
    have hplain := isPlain_of_resolve hfile
    obtain ⟨first, rest, hsegments, hempty, hdot⟩ := exists_first_of_isPlain hplain
    obtain ⟨-, hup, -⟩ : _ ∧ ".." ∉ first :: rest ∧ _ := by
      have hinside := isPlain_relative_iff.mp hplain
      rwa [not_or, not_or, hsegments] at hinside
    rw [resolve_eq_some hfile]
    split
    · obtain ⟨names, hnames⟩ := Path.exists_names hup
      refine ⟨names, "items", ?_⟩
      rw [Path.components_child _ innerComponent?_itemsFile, components_place base hplain,
        components_of_isPlain hplain, hsegments, hnames, List.map_append, List.append_assoc]
      rfl
    · have hplace : place base urlPath = base.join ⟨first :: rest⟩ := by
        rw [← hsegments]
        rfl
      rw [hplace]
      exact exists_components_withSuffix base hempty hdot hup
  · intro file hfile
    rw [resolve_eq_some hfile]
    split
    · exact ⟨fun _ => ‹_›, fun _ => Path.sameAs_refl _⟩
    · rename_i hfile
      rw [Path.sameAs_comm]
      exact ⟨fun hsame => absurd hsame (not_sameAs_withSuffix _), fun h => absurd h hfile⟩

/-- A dot at the end is no component, but with `.json` after it it is part of a name. -/
example : resolve ({} : Memory) (.ofText "data") "/a//./b/./" =
    some (.ofText "data/a//./b/..json") := by
  decide +kernel

end Location

end JsonCollections
