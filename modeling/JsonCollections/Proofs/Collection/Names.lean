import JsonCollections.Collection.Listing
import JsonCollections.Proofs.Collection.Confinement

set_option autoImplicit false

/-!
# Names of collections

A name holds neither slashes nor dots, so names with slashes between them are read off the text
(`splitOn_intercalate`), and with `/api/` before them they are a URL path that leads to a file
(`IsRoute.isPlain`).
-/

namespace JsonCollections

namespace Listing

/-! ## Names of collections -/

/-- A small letter, then small letters, underscores and hyphens. -/
def IsName (name : String) : Prop :=
  ∃ first rest, name.toList = first :: rest ∧ ('a' ≤ first ∧ first ≤ 'z') ∧
    ∀ c ∈ rest, ('a' ≤ c ∧ c ≤ 'z') ∨ c = '_' ∨ c = '-'

theorem isSegment_iff {name : String} : Location.isSegment name.toList = true ↔ IsName name := by
  unfold IsName
  cases name.toList with
  | nil => exact ⟨nofun, fun ⟨_, _, h, _⟩ => nomatch h⟩
  | cons first rest =>
    simp only [Location.isSegment, Location.isLetter, Bool.and_eq_true, decide_eq_true_eq,
      List.all_eq_true, Bool.or_eq_true, beq_iff_eq, or_assoc]
    constructor
    · rintro ⟨hfirst, hrest⟩
      exact ⟨first, rest, rfl, hfirst, hrest⟩
    · rintro ⟨_, _, heq, hfirst, hrest⟩
      cases heq
      exact ⟨hfirst, hrest⟩

/-- The characters that cut names and begin endings are in no name. -/
theorem IsName.not_mem {name : String} (h : IsName name) {c : Char} (hc : c = '/' ∨ c = '.') :
    c ∉ name.toList := by
  obtain ⟨first, rest, hname, hfirst, hrest⟩ := h
  have hsmall : ¬ 'a' ≤ c := by
    rcases hc with rfl | rfl <;> decide
  rw [hname, List.mem_cons, not_or]
  refine ⟨fun heq => hsmall (heq ▸ hfirst.1), fun hmem => ?_⟩
  rcases hrest c hmem with hletter | hother
  · exact hsmall hletter.1
  · revert hother
    rcases hc with rfl | rfl <;> decide

theorem IsName.ne_empty {name : String} (h : IsName name) : name ≠ "" := by
  rintro rfl
  obtain ⟨first, rest, hname, -⟩ := h
  cases hname

theorem IsName.innerComponent? {name : String} (h : IsName name) :
    Path.innerComponent? name = some (.name name) := by
  have hdot : '.' ∉ name.toList := h.not_mem (.inr rfl)
  have hne : ∀ s : String, '.' ∈ s.toList → name ≠ s := fun s hs heq => hdot (heq ▸ hs)
  rw [Path.innerComponent?, if_neg (not_or.mpr ⟨h.ne_empty, hne "." (by decide)⟩),
    if_neg (hne ".." (by decide))]

/-! ## Names with slashes between them -/

/-- Names of collections, at least one, with slashes between them. -/
def IsRoute (path : String) : Prop :=
  ∃ names, names ≠ [] ∧ (∀ name ∈ names, IsName name) ∧ path = "/".intercalate names

theorem IsName.isRoute {name : String} (h : IsName name) : IsRoute name :=
  ⟨[name], List.cons_ne_nil name [], List.forall_mem_singleton.mpr h,
    String.intercalate_singleton.symm⟩

theorem intercalate_concat {names : List String} (hne : names ≠ []) (last : String) :
    "/".intercalate (names ++ [last]) = "/".intercalate names ++ "/" ++ last := by
  refine String.toList_inj.mp ?_
  rw [String.toList_append, String.toList_append, String.toList_intercalate,
    String.toList_intercalate, List.map_append, List.map_singleton]
  exact Path.intercalate_concat_of_ne_nil _ (List.map_eq_nil_iff.not.mpr hne) _

/-- Texts without slashes are read off the text that they make with slashes between them. -/
theorem splitOn_intercalate {names : List String} (hne : names ≠ [])
    (hnames : ∀ name ∈ names, '/' ∉ name.toList) :
    ("/".intercalate names).toList.splitOn '/' = names.map String.toList := by
  rw [String.toList_intercalate]
  exact List.splitOn_intercalate '/' (List.forall_mem_map.mpr hnames)
    (List.map_eq_nil_iff.not.mpr hne)

/-- The pieces between the slashes of a text are names exactly if it is made of names. -/
theorem isRoute_iff {path : String} :
    IsRoute path ↔ ∀ segment ∈ path.toList.splitOn '/', Location.isSegment segment = true := by
  constructor
  · rintro ⟨names, hne, hnames, rfl⟩
    rw [splitOn_intercalate hne fun name hname => (hnames name hname).not_mem (.inl rfl)]
    exact List.forall_mem_map.mpr fun name hname => isSegment_iff.mpr (hnames name hname)
  · intro hsegments
    refine ⟨(path.toList.splitOn '/').map String.ofList, ?_, ?_, ?_⟩
    · exact List.map_eq_nil_iff.not.mpr (List.splitOn_ne_nil '/' path.toList)
    · refine List.forall_mem_map.mpr fun segment hsegment => isSegment_iff.mp ?_
      rw [String.toList_ofList]
      exact hsegments segment hsegment
    · have hid : String.toList ∘ String.ofList = id := funext fun _ => String.toList_ofList
      refine String.toList_inj.mp ?_
      rw [String.toList_intercalate, List.map_map, hid, List.map_id]
      exact (List.intercalate_splitOn '/').symm

theorem head?_intercalate_cons {first : List Char} (hne : first ≠ []) (separator : List Char)
    (rest : List (List Char)) :
    (separator.intercalate (first :: rest)).head? = first.head? := by
  obtain ⟨c, more, rfl⟩ := List.exists_cons_of_ne_nil hne
  cases rest with
  | nil => rw [List.intercalate_singleton]
  | cons second rest =>
    rw [List.intercalate_cons_of_ne_nil (List.cons_ne_nil second rest)]
    rfl

/-- Names after a slash are all that is read of a URL path. -/
theorem relative_intercalate {names : List String} (hne : names ≠ [])
    (hnames : ∀ name ∈ names, name ≠ "" ∧ '/' ∉ name.toList) :
    Location.relative ("/" ++ "/".intercalate names) = ⟨names⟩ := by
  have hname : ∀ name ∈ names, name.toList ≠ [] ∧ ∀ c ∈ name.toList, (c == '/') = false :=
    fun name hname => ⟨String.toList_eq_nil_iff.not.mpr (hnames name hname).1,
      fun c hc => beq_false_of_ne fun heq => (hnames name hname).2 (heq ▸ hc)⟩
  have hstrip : Text.strip (· == '/') ("/" ++ "/".intercalate names).toList =
      ("/".intercalate names).toList := by
    have htext : ("/" ++ "/".intercalate names).toList =
        ['/'] ++ ("/".intercalate names).toList ++ [] := by
      rw [String.toList_append, List.append_nil]
      rfl
    rw [htext, String.toList_intercalate]
    refine Text.strip_append (List.forall_mem_singleton.mpr rfl) (List.forall_mem_nil _)
      (fun c hc => ?_) fun c hc => ?_
    · obtain ⟨first, rest, rfl⟩ := List.exists_cons_of_ne_nil hne
      obtain ⟨hfirst, hslash⟩ := hname first List.mem_cons_self
      rw [List.map_cons, head?_intercalate_cons hfirst] at hc
      exact hslash c (List.mem_of_head? hc)
    · obtain ⟨front, last, rfl⟩ : ∃ front last, names = front ++ [last] :=
        ⟨_, _, (List.dropLast_append_getLast hne).symm⟩
      obtain ⟨hlast, hslash⟩ := hname last List.mem_concat_self
      rw [List.map_append, List.map_singleton, Path.intercalate_concat,
        List.getLast?_append_of_ne_nil _ hlast] at hc
      exact hslash c (List.mem_of_getLast? hc)
  rw [Location.relative, Path.ofChars, hstrip, splitOn_intercalate hne fun name hname =>
    (hnames name hname).2, List.map_map]
  have hid : String.ofList ∘ String.toList = id := funext fun _ => String.ofList_toList
  rw [hid, List.map_id]

theorem relative_api {names : List String} (hne : names ≠ [])
    (hnames : ∀ name ∈ names, IsName name) :
    Location.relative ("/api/" ++ "/".intercalate names) = ⟨apiDirectory :: names⟩ := by
  have hparts : ∀ name ∈ apiDirectory :: names, name ≠ "" ∧ '/' ∉ name.toList :=
    List.forall_mem_cons.mpr ⟨by decide, fun name hname =>
      ⟨(hnames name hname).ne_empty, (hnames name hname).not_mem (.inl rfl)⟩⟩
  have htext : "/api/" ++ "/".intercalate names =
      "/" ++ "/".intercalate (apiDirectory :: names) := by
    refine String.toList_inj.mp ?_
    simp only [String.toList_append, String.toList_intercalate, List.map_cons]
    rw [List.intercalate_cons_of_ne_nil (List.map_eq_nil_iff.not.mpr hne)]
    rfl
  rw [htext]
  exact relative_intercalate (List.cons_ne_nil apiDirectory names) hparts

/-- The URL path of names leads to a file. -/
theorem IsRoute.isPlain {path : String} (h : IsRoute path) :
    Location.isPlain (Location.relative ("/api/" ++ path)) = true := by
  obtain ⟨names, hne, hnames, rfl⟩ := h
  rw [relative_api hne hnames, Location.isPlain_iff (by decide)]
  refine ⟨by decide, fun hup => ?_⟩
  rcases List.mem_cons.mp hup with hapi | hname
  · exact absurd hapi (by decide)
  · exact (hnames ".." hname).not_mem (.inr rfl) List.mem_cons_self

end Listing

end JsonCollections
