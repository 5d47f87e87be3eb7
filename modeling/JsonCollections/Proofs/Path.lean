import JsonCollections.Path
import Mathlib.Data.List.Basic
import Mathlib.Data.List.DropRight

set_option autoImplicit false

/-!
# Longer paths and their order

A path with more segments after it has more components after its own (`components_join`,
`components_child`, `components_descend`); a slash at its end does not count.  Paths below one path
are in the order of the names that lead to them (`components_descend_lt`).
-/

namespace JsonCollections

namespace Path

/-! ## Components -/

/-- The components of segments that more segments follow. -/
def ahead : List String → List Component
  | "" :: rest => .root :: rest.filterMap innerComponent?
  | "." :: rest => .here :: rest.filterMap innerComponent?
  | segments => segments.filterMap innerComponent?

theorem ahead_name {first : String} (hempty : first ≠ "") (hdot : first ≠ ".")
    (rest : List String) : ahead (first :: rest) = (first :: rest).filterMap innerComponent? := by
  unfold ahead
  split
  · rename_i heq
    exact absurd (List.cons.inj heq).1 hempty
  · rename_i heq
    exact absurd (List.cons.inj heq).1 hdot
  · rfl

/-- Only a path that is nothing but a slash has other components. -/
theorem components_eq_ahead {segments : List String} (h : segments ≠ [""]) :
    components ⟨segments⟩ = ahead segments := by
  unfold components ahead
  cases segments with
  | nil => rfl
  | cons first rest =>
    by_cases hempty : first = ""
    · subst hempty
      cases rest with
      | nil => exact absurd rfl h
      | cons second rest => rfl
    · by_cases hdot : first = "."
      · subst hdot
        rfl
      · simp [hempty, hdot]

/-- The first segment alone decides where components begin. -/
theorem ahead_append {segments : List String} (h : segments ≠ []) (more : List String) :
    ahead (segments ++ more) = ahead segments ++ more.filterMap innerComponent? := by
  obtain ⟨first, rest, rfl⟩ := List.exists_cons_of_ne_nil h
  by_cases hempty : first = ""
  · subst hempty
    exact congrArg (Component.root :: ·) List.filterMap_append
  · by_cases hdot : first = "."
    · subst hdot
      exact congrArg (Component.here :: ·) List.filterMap_append
    · rw [List.cons_append, ahead_name hempty hdot, ahead_name hempty hdot, ← List.cons_append,
        List.filterMap_append]

theorem ahead_concat (segments : List String) {s : String}
    (hs : innerComponent? s = some (.name s)) :
    ahead (segments ++ [s]) = ahead segments ++ [.name s] := by
  have hlast : [s].filterMap innerComponent? = [.name s] := List.filterMap_cons_some hs
  cases segments with
  | nil =>
    have hempty : s ≠ "" := by
      rintro rfl
      cases hs
    have hdot : s ≠ "." := by
      rintro rfl
      cases hs
    exact (ahead_name hempty hdot []).trans hlast
  | cons first rest => rw [ahead_append (List.cons_ne_nil first rest), hlast]

theorem components_concat (segments : List String) {s : String}
    (hs : innerComponent? s = some (.name s)) :
    components ⟨segments ++ [s]⟩ = ahead segments ++ [.name s] := by
  rw [components_eq_ahead, ahead_concat segments hs]
  intro hroot
  cases segments with
  | nil =>
    cases hroot
    cases hs
  | cons first rest => simp at hroot

/-- A longer text than two dots is a name. -/
theorem innerComponent?_of_length {s : String} (h : 2 < s.length) :
    innerComponent? s = some (.name s) := by
  have hne : ∀ t : String, t.length ≤ 2 → s ≠ t := by
    rintro t ht rfl
    omega
  unfold innerComponent?
  rw [if_neg (not_or.mpr ⟨hne "" (by decide), hne "." (by decide)⟩), if_neg (hne ".." (by decide))]

/-! ## Longer paths -/

/-- The segments of a path that more segments follow: a slash at the end does not count. -/
def above (p : Path) : List String :=
  if p.segments.getLast? = some "" then p.segments.dropLast else p.segments

theorem ahead_above (p : Path) : ahead p.above = p.components := by
  obtain ⟨segments⟩ := p
  unfold above
  split
  · rename_i hlast
    obtain ⟨front, rfl⟩ := List.getLast?_eq_some_iff.mp hlast
    rw [List.dropLast_concat]
    by_cases hfront : front = []
    · subst hfront
      rfl
    · have hne : front ++ [""] ≠ [""] := by simpa using hfront
      rw [components_eq_ahead hne, ahead_append hfront]
      exact (List.append_nil _).symm
  · rename_i hlast
    refine (components_eq_ahead ?_).symm
    rintro rfl
    exact hlast rfl

/-- Segments that do not begin anew come after the components of a path. -/
theorem ahead_above_append (p : Path) {more : List String}
    (hmore : ∀ s, more.head? = some s → s ≠ "" ∧ s ≠ ".") :
    ahead (p.above ++ more) = p.components ++ more.filterMap innerComponent? := by
  rw [← ahead_above]
  by_cases habove : p.above = []
  · rw [habove]
    cases more with
    | nil => rfl
    | cons first rest =>
      obtain ⟨hempty, hdot⟩ := hmore first rfl
      exact ahead_name hempty hdot rest
  · exact ahead_append habove more

theorem components_join (p : Path) {first : String} {rest : List String} (hempty : first ≠ "")
    (hdot : first ≠ ".") : (p.join ⟨first :: rest⟩).components =
      p.components ++ (first :: rest).filterMap innerComponent? := by
  have hroot : p.above ++ first :: rest ≠ [""] := by
    intro heq
    have hfirst : first ∈ [""] := heq ▸ List.mem_append_right _ List.mem_cons_self
    exact hempty (List.mem_singleton.mp hfirst)
  refine (components_eq_ahead hroot).trans (ahead_above_append p ?_)
  rintro s ⟨⟩
  exact ⟨hempty, hdot⟩

/-- With a file in it a path has one component more. -/
theorem components_child (p : Path) {name : String}
    (hname : innerComponent? name = some (.name name)) :
    (p.child name).components = p.components ++ [.name name] := by
  rw [← ahead_above p]
  exact components_concat _ hname

/-- More text at the end of a path that ends in a name makes the name longer. -/
theorem components_withSuffix {p : Path} {s suffix : String} (hs : p.segments.getLast? = some s)
    (hname : innerComponent? s = some (.name s))
    (hlonger : innerComponent? (s ++ suffix) = some (.name (s ++ suffix))) :
    ∃ parts, p.components = parts ++ [.name s] ∧
      (p.withSuffix suffix).components = parts ++ [.name (s ++ suffix)] := by
  obtain ⟨segments⟩ := p
  obtain ⟨front, rfl⟩ := List.getLast?_eq_some_iff.mp hs
  refine ⟨ahead front, components_concat front hname, ?_⟩
  unfold withSuffix
  rw [List.dropLast_concat, hs, Option.getD_some]
  exact components_concat front hlonger

/-! ## The last name -/

theorem fileName?_eq_some_iff {p : Path} {s : String} : p.fileName? = some s ↔
    ∃ parts, p.components = parts ++ [.name s] := by
  rw [← List.getLast?_eq_some_iff, fileName?]
  constructor
  · intro h
    split at h
    · rename_i found hlast
      rw [hlast, Option.some.inj h]
    · cases h
  · intro h
    rw [h]

/-- What is left out at the end does not count. -/
theorem exists_trimEnd (segments : List String) :
    ∃ more, segments = trimEnd segments ++ more ∧ more.filterMap innerComponent? = [] := by
  cases segments with
  | nil => exact ⟨[], rfl, rfl⟩
  | cons first rest =>
    refine ⟨rest.rtakeWhile fun s => (innerComponent? s).isNone, ?_, ?_⟩
    · exact congrArg (first :: ·) List.rdropWhile_append_rtakeWhile.symm
    · refine List.filterMap_eq_nil_iff.mpr fun s hs => ?_
      have hnone : (innerComponent? s).isNone = true :=
        @List.mem_rtakeWhile_imp _ (fun s => (innerComponent? s).isNone) _ _ hs
      exact Option.isNone_iff_eq_none.mp hnone

theorem ahead_trimEnd (segments : List String) : ahead (trimEnd segments) = ahead segments := by
  cases segments with
  | nil => rfl
  | cons first rest =>
    obtain ⟨more, hsegments, hmore⟩ := exists_trimEnd (first :: rest)
    have hne : trimEnd (first :: rest) ≠ [] := List.cons_ne_nil first _
    have hahead := ahead_append hne more
    rw [← hsegments, hmore, List.append_nil] at hahead
    exact hahead.symm

/-- The segment left at the end counts, unless it is the first one as well. -/
theorem innerComponent?_of_trimEnd {segments front : List String} {last : String}
    (h : trimEnd segments = front ++ [last]) (hfront : front ≠ []) :
    innerComponent? last ≠ none := by
  cases segments with
  | nil => exact absurd h.symm (List.concat_ne_nil last front)
  | cons first rest =>
    obtain ⟨second, front, rfl⟩ := List.exists_cons_of_ne_nil hfront
    have hrest : (rest.rdropWhile fun s => (innerComponent? s).isNone) = front ++ [last] :=
      (List.cons.inj h).2
    have hne : (rest.rdropWhile fun s => (innerComponent? s).isNone) ≠ [] :=
      hrest ▸ List.concat_ne_nil last front
    have hlast := List.rdropWhile_last_not _ rest hne
    simp only [hrest, List.getLast_concat, Option.isNone_iff_eq_none] at hlast
    exact hlast

theorem length_ahead_le (segments : List String) : (ahead segments).length ≤ segments.length := by
  unfold ahead
  split
  · exact Nat.succ_le_succ (List.length_filterMap_le innerComponent? _)
  · exact Nat.succ_le_succ (List.length_filterMap_le innerComponent? _)
  · exact List.length_filterMap_le innerComponent? segments

/-- Another name at the end of a path. -/
theorem components_withName {p : Path} {parts : List Component} {s name : String}
    (hp : p.components = parts ++ [.name s]) (hname : innerComponent? name = some (.name name)) :
    (p.withName name).components = parts ++ [.name name] := by
  have hroot : p.segments ≠ [""] := by
    intro hroot
    rw [components, hroot] at hp
    exact List.concat_ne_nil _ _ hp.symm
  have hahead : ahead (trimEnd p.segments) = parts ++ [.name s] := by
    rw [ahead_trimEnd, ← components_eq_ahead hroot, hp]
  suffices hfront : ahead (trimEnd p.segments).dropLast = parts by
    rw [withName, components_concat _ hname, ahead_trimEnd, hfront]
  rcases List.eq_nil_or_concat' (trimEnd p.segments) with hnil | ⟨front, last, htrim⟩
  · rw [hnil] at hahead
    exact absurd hahead.symm (List.concat_ne_nil _ _)
  · rw [htrim] at hahead
    rw [htrim, List.dropLast_concat]
    by_cases hfront : front = []
    · subst hfront
      have hlength := length_ahead_le ([] ++ [last])
      rw [hahead, List.length_append] at hlength
      have hzero : parts.length ≤ 0 := Nat.le_of_succ_le_succ hlength
      exact (List.length_eq_zero_iff.mp (Nat.le_zero.mp hzero)).symm
    · rw [ahead_append hfront] at hahead
      obtain ⟨part, hpart⟩ := Option.ne_none_iff_exists'.mp (innerComponent?_of_trimEnd htrim hfront)
      rw [List.filterMap_cons_some hpart] at hahead
      exact List.append_inj_left' hahead rfl

/-! ## Names below a path -/

theorem join_pair (p : Path) {first : String} (hfirst : first ≠ "") (second : String) :
    p.join ⟨[first, second]⟩ = (p.child first).child second := by
  have hlast : (p.child first).segments.getLast? ≠ some "" := by
    rw [child, join, List.getLast?_concat]
    exact fun h => hfirst (Option.some.inj h)
  have hchild : (p.child first).child second = ⟨(p.child first).segments ++ [second]⟩ :=
    congrArg (fun front => Path.mk (front ++ [second])) (if_neg hlast)
  rw [hchild, child, join, join, List.append_assoc]
  rfl

theorem withSuffix_child (p : Path) (name suffix : String) :
    (p.child name).withSuffix suffix = p.child (name ++ suffix) := by
  rw [withSuffix, child, join, List.dropLast_concat, List.getLast?_concat]
  rfl

theorem components_descend (p : Path) {names : List String}
    (hnames : ∀ name ∈ names, innerComponent? name = some (.name name)) :
    (p.descend names).components = p.components ++ names.map .name := by
  induction names generalizing p with
  | nil => exact (List.append_nil _).symm
  | cons name rest ih =>
    obtain ⟨hname, hrest⟩ := List.forall_mem_cons.mp hnames
    rw [descend, List.foldl_cons, ← descend, ih _ hrest, components_child p hname,
      List.append_assoc, List.map_cons, List.singleton_append]

theorem intercalate_concat {α : Type} (separator : List α) (front : List (List α))
    (last : List α) :
    separator.intercalate (front ++ [last]) = front.flatMap (· ++ separator) ++ last := by
  induction front with
  | nil => exact List.intercalate_singleton
  | cons first rest ih =>
    rw [List.cons_append, List.intercalate_cons_of_ne_nil (List.concat_ne_nil last rest), ih,
      List.flatMap_cons, List.append_assoc (first ++ separator)]

theorem intercalate_concat_of_ne_nil {α : Type} (separator : List α) {front : List (List α)}
    (hne : front ≠ []) (last : List α) :
    separator.intercalate (front ++ [last]) = separator.intercalate front ++ separator ++ last := by
  obtain ⟨more, second, rfl⟩ : ∃ more second, front = more ++ [second] :=
    ⟨_, _, (List.dropLast_append_getLast hne).symm⟩
  rw [intercalate_concat, intercalate_concat, List.flatMap_append, List.flatMap_singleton,
    ← List.append_assoc]

/-- The text of a path begins that of a place inside it. -/
theorem exists_text_child (p : Path) (name : String) :
    ∃ rest, (p.child name).text = p.text ++ rest := by
  have hchild : (p.child name).text =
      String.ofList (['/'].intercalate (p.above.map String.toList ++ [name.toList])) := by
    rw [text, child, join, above, List.map_append]
    rfl
  rw [hchild, intercalate_concat]
  by_cases hlast : p.segments.getLast? = some ""
  · -- the slash at the end of the path is the one before the name
    obtain ⟨front, hfront⟩ := List.getLast?_eq_some_iff.mp hlast
    have habove : p.above = front := by rw [above, if_pos hlast, hfront, List.dropLast_concat]
    refine ⟨String.ofList name.toList, ?_⟩
    rw [habove, text, hfront, List.map_append, List.map_singleton, intercalate_concat,
      String.toList_empty, List.append_nil, String.ofList_append]
  · have habove : p.above = p.segments := if_neg hlast
    rw [habove, text]
    rcases List.eq_nil_or_concat p.segments with hsegments | ⟨front, last, hsegments⟩
    · rw [hsegments]
      exact ⟨String.ofList name.toList, String.empty_append.symm⟩
    · refine ⟨String.ofList ('/' :: name.toList), ?_⟩
      rw [hsegments, List.concat_eq_append, List.map_append, List.map_singleton, intercalate_concat,
        List.flatMap_append, List.flatMap_singleton, ← String.ofList_append]
      simp only [List.append_assoc, List.singleton_append]

/-- Names without slashes are read off the text that they are spelled by. -/
theorem eq_of_intercalate_eq {names names' : List String}
    (hnames : ∀ name ∈ names, '/' ∉ name.toList) (hnames' : ∀ name ∈ names', '/' ∉ name.toList)
    (hne : names ≠ []) (hne' : names' ≠ [])
    (h : ['/'].intercalate (names.map String.toList) =
      ['/'].intercalate (names'.map String.toList)) : names = names' := by
  have hsplit : ∀ {names : List String}, (∀ name ∈ names, '/' ∉ name.toList) → names ≠ [] →
      (['/'].intercalate (names.map String.toList)).splitOn '/' = names.map String.toList :=
    fun hnames hne => List.splitOn_intercalate '/' (List.forall_mem_map.mpr hnames)
      (List.map_eq_nil_iff.not.mpr hne)
  refine List.map_injective_iff.mpr (fun s t => String.toList_inj.mp) ?_
  rw [← hsplit hnames hne, h, hsplit hnames' hne']

end Path

/-! ## The order of paths -/

/-- Where the components of a kind stand among the others. -/
def Component.rank : Component → Nat
  | .root => 0
  | .here => 1
  | .up => 2
  | .name _ => 3

/-- Paths come in the order of their components: kind by kind, and names by their characters. -/
instance : LT Component where
  lt
    | .name s, .name t => s < t
    | a, b => a.rank < b.rank

instance : Std.Irrefl (· < · : Component → Component → Prop) where
  irrefl c := by
    cases c with
    | root | here | up => exact Nat.lt_irrefl _
    | name s => exact String.lt_irrefl s

theorem Path.components_descend_lt (p : Path) {names names' : List String}
    (hnames : ∀ name ∈ names, innerComponent? name = some (.name name))
    (hnames' : ∀ name ∈ names', innerComponent? name = some (.name name)) (h : names < names') :
    (p.descend names).components < (p.descend names').components := by
  rw [components_descend p hnames, components_descend p hnames']
  exact List.append_left_lt (List.map_lt (fun _ _ h => h) h)

end JsonCollections
