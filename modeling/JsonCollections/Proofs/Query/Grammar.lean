import JsonCollections.Proofs.Entries
import JsonCollections.Query.Parameters
import Mathlib.Data.List.Forall2

set_option autoImplicit false

/-!
# The grammar of filters

A clause is written `path:operator:operand`; the path and the name of the operator hold no colons,
and what the operand stands for depends on the operator.  `Clause.Parsed` says what comes of any text,
and `Clause.ofText_eq_iff` that this is what the parser answers.

The values of `filter` are filters with clauses between commas.  They are parsed in order up to the
first clause that is refused (`Query.Filtered`, `Query.filter_grammar`).
-/

namespace JsonCollections

/-! ## Pieces of a text -/

namespace Text

/-- The text is the pieces, of which there is one at least, with separators between. -/
structure Pieces (separator : Char) (s : String) (pieces : List String) : Prop where
  ne_nil : pieces ≠ []
  free : ∀ piece ∈ pieces, separator ∉ piece.toList
  join_eq : (String.singleton separator).intercalate pieces = s

theorem not_mem_of_mem_splitOn {separator : Char} {s : List Char} :
    ∀ piece ∈ s.splitOn separator, separator ∉ piece := by
  induction s with
  | nil =>
    rw [List.splitOn_nil]
    exact List.forall_mem_singleton.mpr List.not_mem_nil
  | cons c rest ih =>
    rw [List.splitOn_cons_eq_if_modifyHead]
    split
    · exact List.forall_mem_cons.mpr ⟨List.not_mem_nil, ih⟩
    · rename_i hc
      obtain ⟨first, others, hrest⟩ := List.exists_cons_of_ne_nil (List.splitOn_ne_nil separator rest)
      rw [hrest] at ih ⊢
      obtain ⟨hfirst, hothers⟩ := List.forall_mem_cons.mp ih
      have hne : separator ≠ c := fun heq => hc (beq_iff_eq.mpr heq.symm)
      exact List.forall_mem_cons.mpr ⟨List.not_mem_cons_of_ne_of_not_mem hne hfirst, hothers⟩

/-- A text is cut into pieces in one way. -/
theorem pieces_iff {separator : Char} {s : String} {pieces : List String} :
    Pieces separator s pieces ↔ (s.toList.splitOn separator).map String.ofList = pieces := by
  have hofList : ∀ l : List (List Char), (l.map String.ofList).map String.toList = l := by
    intro l
    rw [List.map_map]
    exact (List.map_congr_left fun chars _ => String.toList_ofList).trans (List.map_id l)
  have htoList : ∀ l : List String, (l.map String.toList).map String.ofList = l := by
    intro l
    rw [List.map_map]
    exact (List.map_congr_left fun text _ => String.ofList_toList).trans (List.map_id l)
  constructor
  · rintro ⟨hne, hfree, rfl⟩
    have hfree' : ∀ piece ∈ pieces.map String.toList, separator ∉ piece :=
      List.forall_mem_map.mpr hfree
    rw [String.toList_intercalate, String.toList_singleton,
      List.splitOn_intercalate separator hfree' (List.map_eq_nil_iff.not.mpr hne), htoList]
  · rintro rfl
    refine ⟨List.map_eq_nil_iff.not.mpr (List.splitOn_ne_nil _ _), ?_, ?_⟩
    · refine List.forall_mem_map.mpr fun piece hpiece => ?_
      rw [String.toList_ofList]
      exact not_mem_of_mem_splitOn piece hpiece
    · rw [← String.toList_inj, String.toList_intercalate, String.toList_singleton, hofList,
        List.intercalate_splitOn]

end Text

/-! ## Operands -/

/-- The texts that stand for themselves where an operand may be of any type. -/
def Primitive.literals : List String := ["true", "false", "null"]

/-- What an operand of any type stands for: a literal, else a number, and else the text as it is. -/
inductive Primitive.Denoted : String → Primitive → Prop where
  | true : Denoted "true" (.bool true)
  | false : Denoted "false" (.bool false)
  | null : Denoted "null" .null
  | number {s : String} {x : Double} (hliteral : s ∉ literals)
      (hnumber : Double.ofText? s.toList = some x) : Denoted s (.number x)
  | string {s : String} (hliteral : s ∉ literals) (hnumber : Double.ofText? s.toList = none) :
      Denoted s (.string s)

theorem Primitive.denoted_ofText (s : String) : Denoted s (ofText s.toList) := by
  unfold ofText
  simp only [String.toList_inj, String.ofList_toList]
  split
  · rename_i htrue
    exact htrue ▸ .true
  · rename_i htrue
    split
    · rename_i hfalse
      exact hfalse ▸ .false
    · rename_i hfalse
      split
      · rename_i hnull
        exact hnull ▸ .null
      · rename_i hnull
        have hliteral : s ∉ literals := by simp [literals, htrue, hfalse, hnull]
        split
        · exact .number hliteral ‹_›
        · exact .string hliteral ‹_›

/-- An operand stands for one thing. -/
theorem Primitive.ofText_eq_iff {s : String} {p : Primitive} :
    ofText s.toList = p ↔ Denoted s p := by
  constructor
  · rintro rfl
    exact denoted_ofText s
  · have hne : s ∉ literals → s ≠ "true" ∧ s ≠ "false" ∧ s ≠ "null" := by
      intro hliteral
      simpa [literals] using hliteral
    intro h
    cases h with
    | true | false | null => rfl
    | number hliteral hnumber | string hliteral hnumber =>
      obtain ⟨htrue, hfalse, hnull⟩ := hne hliteral
      simp only [ofText, String.toList_inj, String.ofList_toList, if_neg htrue, if_neg hfalse,
        if_neg hnull, hnumber]

/-- What an operand stands for after an operator. -/
inductive Condition.Denoted (s : String) : Condition → Prop where
  | comparison {op : Comparison} {x : Double} (hnumber : Double.ofText? s.toList = some x) :
      Denoted s (.comparison op x)
  | contains : Denoted s (.contains s)
  | equality {op : Equality} {p : Primitive} (hdenoted : p.Denoted s) :
      Denoted s (.equality op p)

theorem Clause.conditionOfText_eq_ok_iff {op : Operator} {s : String} {c : Condition} :
    conditionOfText op s.toList = .ok c ↔ c.operator = op ∧ c.Denoted s := by
  unfold conditionOfText
  constructor
  · intro h
    split at h
    · split at h
      · cases h
        exact ⟨rfl, .comparison ‹_›⟩
      · cases h
    · cases h
      rw [String.ofList_toList]
      exact ⟨rfl, .contains⟩
    · cases h
      exact ⟨rfl, .equality (Primitive.denoted_ofText s)⟩
  · rintro ⟨rfl, hdenoted⟩
    cases hdenoted with
    | comparison hnumber => simp only [Condition.operator, hnumber]
    | contains => simp only [Condition.operator, String.ofList_toList]
    | equality hdenoted => simp only [Condition.operator, Primitive.ofText_eq_iff.mpr hdenoted]

/-- Only an operand that has to be a number is refused. -/
theorem Clause.conditionOfText_eq_error_iff {op : Operator} {s : String} {error : QueryError} :
    conditionOfText op s.toList = .error error ↔
      (∃ cmp, op = .comparison cmp) ∧ Double.ofText? s.toList = none ∧ error = .invalidValue s := by
  unfold conditionOfText
  constructor
  · intro h
    split at h
    · rename_i cmp
      split at h
      · cases h
      · cases h
        rw [String.ofList_toList]
        exact ⟨⟨cmp, rfl⟩, ‹_›, rfl⟩
    · cases h
    · cases h
  · rintro ⟨⟨cmp, rfl⟩, hnumber, rfl⟩
    simp only [hnumber, String.ofList_toList]

/-! ## Clauses -/

namespace Clause

/-- The three parts of a clause with colons between, of which only the operand may hold colons. -/
structure Parts (s path name operand : String) : Prop where
  text_eq : s = path ++ ":" ++ name ++ ":" ++ operand
  path_free : ':' ∉ path.toList
  name_free : ':' ∉ name.toList

/-- What comes of a text.  It is refused if it has no three parts, then if there is no operator of
the name, and then if the operator takes numbers only and the operand is none. -/
inductive Parsed (s : String) : Except QueryError Clause → Prop where
  | clause {c : Clause} {path operand : String}
      (hparts : Parts s path c.condition.operator.name operand)
      (hpath : Text.Pieces '.' path c.path) (hdenoted : c.condition.Denoted operand) :
      Parsed s (.ok c)
  | malformed (hparts : ∀ path name operand, ¬ Parts s path name operand) :
      Parsed s (.error (.invalidClause s))
  | unknown {path name operand : String} (hparts : Parts s path name operand)
      (hname : ∀ op : Operator, name ≠ op.name) : Parsed s (.error (.invalidOperator name))
  | notNumber {path operand : String} {op : Comparison}
      (hparts : Parts s path (Operator.comparison op).name operand)
      (hnumber : Double.ofText? operand.toList = none) :
      Parsed s (.error (.invalidValue operand))

/-- A clause is cut at its first colon, and what comes after it at the next one. -/
theorem Parts.cut {s path name operand : String} (h : Parts s path name operand) :
    Text.cut? ':' s.toList = some (path.toList, name.toList ++ ':' :: operand.toList) ∧
      Text.cut? ':' (name.toList ++ ':' :: operand.toList) = some (name.toList, operand.toList) := by
  refine ⟨Text.cut?_eq_some_iff.mpr ⟨?_, h.path_free⟩,
    Text.cut?_eq_some_iff.mpr ⟨rfl, h.name_free⟩⟩
  rw [h.text_eq]
  simp only [String.toList_append, List.append_assoc]
  rfl

theorem parts_of_cut {s : String} {path rest name operand : List Char}
    (hs : Text.cut? ':' s.toList = some (path, rest))
    (hrest : Text.cut? ':' rest = some (name, operand)) :
    Parts s (String.ofList path) (String.ofList name) (String.ofList operand) := by
  obtain ⟨htext, hpath⟩ := Text.cut?_eq_some_iff.mp hs
  obtain ⟨rfl, hname⟩ := Text.cut?_eq_some_iff.mp hrest
  refine ⟨?_, ?_, ?_⟩
  · rw [← String.toList_inj, htext]
    simp only [String.toList_append, String.toList_ofList, List.append_assoc]
    rfl
  · rwa [String.toList_ofList]
  · rwa [String.toList_ofList]

theorem ofText_of_parts {s path name operand : String} (h : Parts s path name operand) :
    ofText s = (Operator.ofName name).bind fun op =>
      (conditionOfText op operand.toList).bind fun c => .ok ⟨pathOfText path.toList, c⟩ := by
  obtain ⟨hs, hrest⟩ := h.cut
  rw [ofText, ofChars, hs]
  simp only [hrest, String.ofList_toList]
  rfl

theorem ofText_of_not_parts {s : String} (h : ∀ path name operand, ¬ Parts s path name operand) :
    ofText s = .error (.invalidClause s) := by
  rw [ofText, ofChars]
  cases hs : Text.cut? ':' s.toList with
  | none => simp only [String.ofList_toList]
  | some cut =>
    obtain ⟨path, rest⟩ := cut
    cases hrest : Text.cut? ':' rest with
    | none => simp only [hrest, String.ofList_toList]
    | some cut => exact absurd (parts_of_cut hs hrest) (h _ _ _)

theorem ofName_eq_error_iff {name : String} {error : QueryError} :
    Operator.ofName name = .error error ↔
      (∀ op : Operator, name ≠ op.name) ∧ error = .invalidOperator name := by
  unfold Operator.ofName
  constructor
  · intro h
    split at h
    · cases h
    · rename_i hnone
      cases h
      refine ⟨fun op hname => ?_, rfl⟩
      rw [(Operator.ofName?_eq_some_iff name op).mpr hname] at hnone
      cases hnone
  · rintro ⟨hname, rfl⟩
    cases hfound : Operator.ofName? name with
    | none => rfl
    | some op => exact absurd ((Operator.ofName?_eq_some_iff name op).mp hfound) (hname op)

theorem ofName_name (op : Operator) : Operator.ofName op.name = .ok op := by
  rw [Operator.ofName, (Operator.ofName?_eq_some_iff op.name op).mpr rfl]

/-- A text with three parts is parsed as they say. -/
theorem Parts.parsed {s path name operand : String} (h : Parts s path name operand) :
    Parsed s (ofText s) := by
  rw [ofText_of_parts h]
  by_cases hname : ∃ op : Operator, name = op.name
  · obtain ⟨op, rfl⟩ := hname
    rw [ofName_name]
    change Parsed s ((conditionOfText op operand.toList).bind _)
    cases hcondition : conditionOfText op operand.toList with
    | ok c =>
      obtain ⟨rfl, hdenoted⟩ := conditionOfText_eq_ok_iff.mp hcondition
      have hpath : Text.Pieces '.' path (pathOfText path.toList) := Text.pieces_iff.mpr rfl
      exact .clause h hpath hdenoted
    | error error =>
      obtain ⟨⟨cmp, rfl⟩, hnumber, rfl⟩ := conditionOfText_eq_error_iff.mp hcondition
      exact .notNumber h hnumber
  · have hunknown : ∀ op : Operator, name ≠ op.name := fun op heq => hname ⟨op, heq⟩
    rw [ofName_eq_error_iff.mpr ⟨hunknown, rfl⟩]
    exact .unknown h hunknown

theorem Parsed.eq {s : String} {result : Except QueryError Clause} (h : Parsed s result) :
    ofText s = result := by
  cases h with
  | clause hparts hpath hdenoted =>
    rw [ofText_of_parts hparts, ofName_name]
    change (conditionOfText _ _).bind _ = _
    rw [conditionOfText_eq_ok_iff.mpr ⟨rfl, hdenoted⟩, pathOfText, Text.pieces_iff.mp hpath]
    rfl
  | malformed hparts => exact ofText_of_not_parts hparts
  | unknown hparts hname =>
    rw [ofText_of_parts hparts, ofName_eq_error_iff.mpr ⟨hname, rfl⟩]
    rfl
  | notNumber hparts hnumber =>
    rw [ofText_of_parts hparts, ofName_name]
    change (conditionOfText _ _).bind _ = _
    rw [conditionOfText_eq_error_iff.mpr ⟨⟨_, rfl⟩, hnumber, rfl⟩]
    rfl

/-- The parser answers what the grammar says, for every text. -/
theorem ofText_eq_iff {s : String} {result : Except QueryError Clause} :
    ofText s = result ↔ Parsed s result := by
  refine ⟨?_, Parsed.eq⟩
  rintro rfl
  by_cases hparts : ∃ path name operand, Parts s path name operand
  · obtain ⟨path, name, operand, hparts⟩ := hparts
    exact hparts.parsed
  · have hnone : ∀ path name operand, ¬ Parts s path name operand :=
      fun path name operand h => hparts ⟨path, name, operand, h⟩
    rw [ofText_of_not_parts hnone]
    exact .malformed hnone

/-- Only the first two colons count. -/
example : ofText "user.name:sub:a:b" = .ok ⟨["user", "name"], .contains "a:b"⟩ := by decide

/-- The names of operators. -/
theorem mem_names_iff {name : String} :
    name ∈ ["lt", "gt", "lte", "gte", "sub", "eq", "neq"] ↔ ∃ op : Operator, name = op.name := by
  constructor
  · intro hname
    have hfound : (Operator.ofName? name).isSome := by
      revert name
      decide
    obtain ⟨op, hop⟩ := Option.isSome_iff_exists.mp hfound
    exact ⟨op, (Operator.ofName?_eq_some_iff name op).mp hop⟩
  · rintro ⟨op, rfl⟩
    rcases op with op | _ | op
    · cases op <;> decide
    · decide
    · cases op <;> decide

/-- The names of the operators that take numbers only. -/
theorem mem_numeric_names_iff {op : Operator} :
    op.name ∈ ["lt", "gt", "lte", "gte"] ↔ ∃ cmp, op = .comparison cmp := by
  rcases op with op | _ | op
  · cases op <;> exact ⟨fun _ => ⟨_, rfl⟩, fun _ => by decide⟩
  · exact ⟨fun h => absurd h (by decide), nofun⟩
  · cases op <;> exact ⟨fun h => absurd h (by decide), nofun⟩

/-- The texts that are clauses. -/
theorem exists_ofText_eq_ok_iff {s : String} :
    (∃ c, ofText s = .ok c) ↔ ∃ path name operand, Parts s path name operand ∧
      name ∈ ["lt", "gt", "lte", "gte", "sub", "eq", "neq"] ∧
      (name ∈ ["lt", "gt", "lte", "gte"] → (Double.ofText? operand.toList).isSome) := by
  constructor
  · rintro ⟨⟨keys, condition⟩, hc⟩
    cases ofText_eq_iff.mp hc with
    | clause hparts _ hdenoted =>
      refine ⟨_, _, _, hparts, mem_names_iff.mpr ⟨_, rfl⟩, fun hnumeric => ?_⟩
      obtain ⟨cmp, hcmp⟩ := mem_numeric_names_iff.mp hnumeric
      cases hdenoted with
      | comparison hnumber => exact Option.isSome_of_eq_some hnumber
      | contains | equality => cases hcmp
  · rintro ⟨path, name, operand, hparts, hname, hnumber⟩
    obtain ⟨op, rfl⟩ := mem_names_iff.mp hname
    rw [ofText_of_parts hparts, ofName_name]
    change ∃ c, (conditionOfText op operand.toList).bind _ = .ok c
    cases hcondition : conditionOfText op operand.toList with
    | ok condition => exact ⟨_, rfl⟩
    | error error =>
      obtain ⟨hcmp, hnone, -⟩ := conditionOfText_eq_error_iff.mp hcondition
      have hsome := hnumber (mem_numeric_names_iff.mpr hcmp)
      rw [hnone] at hsome
      cases hsome

end Clause

/-! ## Filters -/

namespace Query

/-- A filter has the clauses between the commas of a text, in order. -/
def Spelled (text : String) (filter : Filter) : Prop :=
  ∃ pieces, Text.Pieces ',' text pieces ∧
    List.Forall₂ (fun piece clause => Clause.Parsed piece (.ok clause)) pieces filter

/-- What comes of the values of `filter`: a filter for each of them, or else the error of the first
clause that is refused. -/
inductive Filtered (values : List String) : Except QueryError Query → Prop where
  | filters {filters : List Filter} (hfilters : List.Forall₂ Spelled values filters) :
      Filtered values (.ok { filters := some filters })
  | refused {before after pieces more : List String} {value piece : String} {error : QueryError}
      (hvalues : values = before ++ value :: after)
      (hbefore : ∀ earlier ∈ before, ∃ filter, Spelled earlier filter)
      (hvalue : Text.Pieces ',' value (pieces ++ piece :: more))
      (hpieces : ∀ earlier ∈ pieces, ∃ clause, Clause.Parsed earlier (.ok clause))
      (hpiece : Clause.Parsed piece (.error error)) : Filtered values (.error error)

theorem filterOf_eq (text : String) :
    filterOf text = ((text.toList.splitOn ',').map String.ofList).mapM Clause.ofText := by
  have hofText : (Clause.ofText ∘ String.ofList) = Clause.ofChars :=
    funext fun s => congrArg Clause.ofChars String.toList_ofList
  rw [List.mapM_map, hofText]
  rfl

theorem filterOf_eq_ok_iff {text : String} {filter : Filter} :
    filterOf text = .ok filter ↔ Spelled text filter := by
  rw [filterOf_eq, mapM_eq_ok_iff]
  simp only [Clause.ofText_eq_iff]
  constructor
  · exact fun h => ⟨_, Text.pieces_iff.mpr rfl, h⟩
  · rintro ⟨pieces, hpieces, h⟩
    rwa [Text.pieces_iff.mp hpieces]

theorem filterOf_eq_error_iff {text : String} {error : QueryError} :
    filterOf text = .error error ↔ ∃ pieces piece more,
      Text.Pieces ',' text (pieces ++ piece :: more) ∧
      (∀ earlier ∈ pieces, ∃ clause, Clause.Parsed earlier (.ok clause)) ∧
      Clause.Parsed piece (.error error) := by
  rw [filterOf_eq, mapM_eq_error_iff]
  simp only [Clause.ofText_eq_iff, Text.pieces_iff]

/-- Parameters that are all named `filter` have their values. -/
theorem ofPairs_filters {texts : List String} (h : texts ≠ []) :
    ofPairs (texts.map ("filter", ·)) =
      (texts.mapM filterOf).map fun filters => { filters := some filters } := by
  have hnone : ∀ name, name ≠ "filter" → values name (texts.map ("filter", ·)) = [] := by
    intro name hname
    rw [values, List.map_eq_nil_iff, List.filter_eq_nil_iff]
    refine List.forall_mem_map.mpr fun text _ hfilter => ?_
    exact hname (beq_iff_eq.mp hfilter).symm
  have hall : values "filter" (texts.map ("filter", ·)) = texts := by
    rw [values, List.filter_eq_self.mpr (List.forall_mem_map.mpr fun _ _ => rfl), List.map_map]
    exact List.map_id texts
  have hfilters : filtersOf texts = some <$> texts.mapM filterOf := if_neg h
  simp only [ofPairs, indexOf, hnone "limit" (by decide), hnone "offset" (by decide),
    hnone "select" (by decide), hall, hfilters]
  cases texts.mapM filterOf <;> rfl

/-- For every text the parser answers what the grammar of clauses says, and it accepts a text exactly
if it has three parts with a known operator, and with a number where one is needed.  Values of `filter`
alone make a query of a filter each, or fail with the first clause that is refused. -/
theorem filter_grammar :
    (∀ text result, Clause.ofText text = result ↔ Clause.Parsed text result) ∧
    (∀ text, (∃ clause, Clause.ofText text = .ok clause) ↔
      ∃ path name operand, Clause.Parts text path name operand ∧
        name ∈ ["lt", "gt", "lte", "gte", "sub", "eq", "neq"] ∧
        (name ∈ ["lt", "gt", "lte", "gte"] → (Double.ofText? operand.toList).isSome)) ∧
    ∀ texts result, texts ≠ [] →
      (ofPairs (texts.map ("filter", ·)) = result ↔ Filtered texts result) := by
  refine ⟨fun _ _ => Clause.ofText_eq_iff, fun _ => Clause.exists_ofText_eq_ok_iff,
    fun texts result htexts => ?_⟩
  rw [ofPairs_filters htexts]
  constructor
  · rintro rfl
    cases hfilters : texts.mapM filterOf with
    | ok filters =>
      exact .filters ((mapM_eq_ok_iff.mp hfilters).imp fun _ _ => filterOf_eq_ok_iff.mp)
    | error error =>
      obtain ⟨before, value, after, hvalues, hbefore, hvalue⟩ := mapM_eq_error_iff.mp hfilters
      obtain ⟨pieces, piece, more, hcut, hpieces, hpiece⟩ := filterOf_eq_error_iff.mp hvalue
      simp only [filterOf_eq_ok_iff] at hbefore
      exact .refused hvalues hbefore hcut hpieces hpiece
  · intro h
    cases h with
    | filters hfilters =>
      rw [mapM_eq_ok_iff.mpr (hfilters.imp fun _ _ => filterOf_eq_ok_iff.mpr)]
      rfl
    | refused hvalues hbefore hcut hpieces hpiece =>
      have hvalue := filterOf_eq_error_iff.mpr ⟨_, _, _, hcut, hpieces, hpiece⟩
      simp only [← filterOf_eq_ok_iff] at hbefore
      rw [mapM_eq_error_iff.mpr ⟨_, _, _, hvalues, hbefore, hvalue⟩]
      rfl

end Query

end JsonCollections
