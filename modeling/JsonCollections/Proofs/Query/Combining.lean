import JsonCollections.Proofs.Query.Paging
import JsonCollections.Proofs.Query.Parameters

set_option autoImplicit false

/-!
# Filters combine

A value of `filter` selects the items that meet all its clauses, and the values of `filter` together
select what one of them selects (`Query.keeps_iff`).  So a clause that is added to a value leaves
fewer items, a value that is added to others leaves more, and neither the order of values nor that of
the clauses in them counts (`Query.filtering`).
-/

namespace JsonCollections.Query

/-! ## Lists side by side -/

section Related

variable {α β : Type} {R : α → β → Prop} {xs : List α} {ys : List β}

theorem exists_forall₂_iff : (∃ ys, List.Forall₂ R xs ys) ↔ ∀ x ∈ xs, ∃ y, R x y := by
  induction xs with
  | nil => exact ⟨fun _ => nofun, fun _ => ⟨[], .nil⟩⟩
  | cons x rest ih =>
    rw [List.forall_mem_cons, ← ih]
    constructor
    · rintro ⟨_, hx | ⟨hx, hrest⟩⟩
      exact ⟨⟨_, hx⟩, ⟨_, hrest⟩⟩
    · rintro ⟨⟨y, hy⟩, ys, hys⟩
      exact ⟨y :: ys, .cons hy hys⟩

theorem forall_mem_iff_of_forall₂ {p : α → Prop} {p' : β → Prop}
    (h : List.Forall₂ R xs ys) (hp : ∀ {x y}, R x y → (p x ↔ p' y)) :
    (∀ x ∈ xs, p x) ↔ ∀ y ∈ ys, p' y := by
  induction h with
  | nil => simp
  | cons hxy _ ih => rw [List.forall_mem_cons, List.forall_mem_cons, hp hxy, ih]

theorem exists_mem_iff_of_forall₂ {p : α → Prop} {p' : β → Prop}
    (h : List.Forall₂ R xs ys) (hp : ∀ {x y}, R x y → (p x ↔ p' y)) :
    (∃ x ∈ xs, p x) ↔ ∃ y ∈ ys, p' y := by
  induction h with
  | nil => simp
  | cons hxy _ ih => rw [List.exists_mem_cons_iff, List.exists_mem_cons_iff, hp hxy, ih]

end Related

/-! ## What one value selects -/

/-- The text is a clause that the item meets. -/
def Met (item : Item) (piece : String) : Prop :=
  ∃ clause, Clause.Parsed piece (.ok clause) ∧ clause.matchesItem item = true

/-- Every piece of the value between commas is a clause that the item meets. -/
def Selects (text : String) (item : Item) : Prop :=
  ∃ pieces, Text.Pieces ',' text pieces ∧ ∀ piece ∈ pieces, Met item piece

/-- The value alone makes a query. -/
def Accepted (text : String) : Prop := ∃ q, ofPairs [("filter", text)] = .ok q

theorem exists_pieces (text : String) : ∃ pieces, Text.Pieces ',' text pieces :=
  ⟨_, Text.pieces_iff.mpr rfl⟩

theorem selects_iff_pieces {text : String} {pieces : List String}
    (h : Text.Pieces ',' text pieces) (item : Item) :
    Selects text item ↔ ∀ piece ∈ pieces, Met item piece := by
  simp only [Selects, Text.pieces_iff, exists_eq_left', Text.pieces_iff.mp h]

theorem accepted_iff {text : String} : Accepted text ↔ ∃ filter, Spelled text filter := by
  have hpairs : ofPairs [("filter", text)] =
      ([text].mapM filterOf).map fun filters => { filters := some filters } :=
    ofPairs_filters (List.cons_ne_nil text [])
  simp only [Accepted, hpairs, List.mapM_cons, List.mapM_nil, ← filterOf_eq_ok_iff]
  cases filterOf text with
  | ok filter => exact ⟨fun _ => ⟨filter, rfl⟩, fun _ => ⟨_, rfl⟩⟩
  | error error => exact ⟨nofun, nofun⟩

/-- A value is accepted if every piece of it is a clause. -/
theorem accepted_iff_pieces {text : String} {pieces : List String}
    (h : Text.Pieces ',' text pieces) :
    Accepted text ↔ ∀ piece ∈ pieces, ∃ clause, Clause.Parsed piece (.ok clause) := by
  simp only [accepted_iff, Spelled, Text.pieces_iff, exists_eq_left', Text.pieces_iff.mp h,
    exists_forall₂_iff]

theorem Selects.accepted {text : String} {item : Item} (h : Selects text item) : Accepted text := by
  obtain ⟨pieces, hpieces, hmet⟩ := h
  refine (accepted_iff_pieces hpieces).mpr fun piece hpiece => ?_
  obtain ⟨clause, hclause, -⟩ := hmet piece hpiece
  exact ⟨clause, hclause⟩

/-- A piece that is a clause is so in one way. -/
theorem met_iff {piece : String} {clause : Clause} (h : Clause.Parsed piece (.ok clause))
    (item : Item) : Met item piece ↔ clause.matchesItem item = true := by
  constructor
  · rintro ⟨other, hother, hmet⟩
    obtain rfl : other = clause := Except.ok.inj (hother.eq.symm.trans h.eq)
    exact hmet
  · exact fun hmet => ⟨clause, h, hmet⟩

/-- What a value selects is what its filter matches. -/
theorem selects_iff {text : String} {filter : Filter} (h : Spelled text filter) (item : Item) :
    Selects text item ↔ filter.matchesItem item = true := by
  obtain ⟨pieces, hpieces, hclauses⟩ := h
  rw [selects_iff_pieces hpieces, Filter.matchesItem, List.all_eq_true]
  exact forall_mem_iff_of_forall₂ hclauses fun hclause => met_iff hclause item

instance (text : String) (item : Item) : Decidable (Selects text item) :=
  match h : filterOf text with
  | .ok filter =>
    decidable_of_iff (filter.matchesItem item = true)
      (selects_iff (filterOf_eq_ok_iff.mp h) item).symm
  | .error error => .isFalse fun hselects => by
    obtain ⟨filter, hfilter⟩ := accepted_iff.mp hselects.accepted
    rw [filterOf_eq_ok_iff.mpr hfilter] at h
    cases h

/-- Values that are joined with a comma have the clauses of both. -/
theorem pieces_join {a b : String} {pieces more : List String} (ha : Text.Pieces ',' a pieces)
    (hb : Text.Pieces ',' b more) : Text.Pieces ',' (a ++ "," ++ b) (pieces ++ more) := by
  have htext : (a ++ "," ++ b).toList = a.toList ++ ',' :: b.toList := by
    simp only [String.toList_append, List.append_assoc]
    rfl
  rw [Text.pieces_iff] at ha hb ⊢
  rw [htext, List.splitOn_append_cons_self, List.map_append, ha, hb]

theorem accepted_join_iff {a b : String} : Accepted (a ++ "," ++ b) ↔ Accepted a ∧ Accepted b := by
  obtain ⟨pieces, ha⟩ := exists_pieces a
  obtain ⟨more, hb⟩ := exists_pieces b
  rw [accepted_iff_pieces (pieces_join ha hb), accepted_iff_pieces ha, accepted_iff_pieces hb,
    List.forall_mem_append]

/-- Values that are joined select what both of them select. -/
theorem selects_join_iff {a b : String} {item : Item} :
    Selects (a ++ "," ++ b) item ↔ Selects a item ∧ Selects b item := by
  obtain ⟨pieces, ha⟩ := exists_pieces a
  obtain ⟨more, hb⟩ := exists_pieces b
  rw [selects_iff_pieces (pieces_join ha hb), selects_iff_pieces ha, selects_iff_pieces hb,
    List.forall_mem_append]

/-- Two values have the same clauses, in any order. -/
def SameClauses (a b : String) : Prop :=
  ∃ pieces more, Text.Pieces ',' a pieces ∧ Text.Pieces ',' b more ∧ pieces.Perm more

theorem SameClauses.accepted_iff {a b : String} (h : SameClauses a b) :
    Accepted a ↔ Accepted b := by
  obtain ⟨pieces, more, ha, hb, hperm⟩ := h
  simp only [accepted_iff_pieces ha, accepted_iff_pieces hb, hperm.mem_iff]

theorem SameClauses.selects_iff {a b : String} (h : SameClauses a b) (item : Item) :
    Selects a item ↔ Selects b item := by
  obtain ⟨pieces, more, ha, hb, hperm⟩ := h
  simp only [selects_iff_pieces ha, selects_iff_pieces hb, hperm.mem_iff]

/-! ## What all values select -/

/-- Some filter matches if its value selects the item. -/
theorem anyMatches_iff {texts : List String} {filters : List Filter} (hne : texts ≠ [])
    (h : List.Forall₂ Spelled texts filters) (item : Item) :
    Filter.anyMatches filters item = true ↔ ∃ text ∈ texts, Selects text item := by
  have hsome : filters ≠ [] := by
    rintro rfl
    cases h
    exact hne rfl
  rw [Filter.anyMatches, List.isEmpty_eq_false_iff.mpr hsome, Bool.false_or, List.any_eq_true]
  exact (exists_mem_iff_of_forall₂ h fun hfilter => selects_iff hfilter item).symm

/-- An item passes if a value of `filter` selects it, or if there is none. -/
theorem keeps_iff {pairs : List (String × String)} {q : Query} (h : ofPairs pairs = .ok q)
    (item : Item) : q.keeps item = true ↔
      values "filter" pairs = [] ∨ ∃ text ∈ values "filter" pairs, Selects text item := by
  cases ofPairs_eq_iff.mp h with
  | query _ _ _ hfilters =>
    unfold keeps
    generalize values "filter" pairs = texts at hfilters
    generalize q.filters = filters at hfilters
    cases hfilters with
    | absent => simp [Filter.anyMatches]
    | present hne hfilters =>
      rw [Option.getD_some, anyMatches_iff hne hfilters]
      simp only [hne, false_or]

/-- Each value of `filter` in a query is accepted alone. -/
theorem accepted_of_ofPairs {pairs : List (String × String)} {q : Query} (h : ofPairs pairs = .ok q)
    {text : String} (htext : text ∈ values "filter" pairs) : Accepted text := by
  cases ofPairs_eq_iff.mp h with
  | query _ _ _ hfilters =>
    have hspelled := given_iff.mp hfilters
    rw [if_neg (List.ne_nil_of_mem htext)] at hspelled
    obtain ⟨filters, -, hspelled⟩ := hspelled
    exact accepted_iff.mpr (exists_forall₂_iff.mp ⟨filters, hspelled⟩ text htext)

/-- Other values of `filter` leave the other parts of the query as they are. -/
theorem exists_ofPairs {pairs others : List (String × String)} {q : Query}
    (h : ofPairs pairs = .ok q) (hselect : values "select" pairs = values "select" others)
    (hlimit : (values "limit" pairs).head? = (values "limit" others).head?)
    (hoffset : (values "offset" pairs).head? = (values "offset" others).head?)
    (hfilter : ∀ text ∈ values "filter" others, Accepted text) :
    ∃ filters, ofPairs others = .ok { q with filters := filters } := by
  have hindex : ∀ {name error}, (values name pairs).head? = (values name others).head? →
      indexOf name error pairs = indexOf name error others := by
    intro name error hhead
    rw [indexOf, indexOf, hhead]
  obtain ⟨filters, hfilters⟩ :=
    exists_forall₂_iff.mpr fun text htext => accepted_iff.mp (hfilter text htext)
  cases ofPairs_eq_iff.mp h with
  | query hselected hlimited hskipped _ =>
    rw [← @indexOf_eq_ok_iff _ .invalidLimit, hindex hlimit, indexOf_eq_ok_iff] at hlimited
    rw [← @indexOf_eq_ok_iff _ .invalidOffset, hindex hoffset, indexOf_eq_ok_iff] at hskipped
    rw [hselect] at hselected
    by_cases hnone : values "filter" others = []
    · exact ⟨none, ofPairs_eq_iff.mpr (.query hselected hlimited hskipped
        (given_iff.mpr ((if_pos hnone).mpr rfl)))⟩
    · exact ⟨some filters, ofPairs_eq_iff.mpr (.query hselected hlimited hskipped
        (.present hnone hfilters))⟩

/-! ## Answers to filters alone -/

/-- The pairs make a query, and it answers the items with a property, in stored order and each place
once. -/
def Answers (pairs : List (String × String)) (p : Item → Prop) [DecidablePred p] : Prop :=
  ∃ q, ofPairs pairs = .ok q ∧ ∀ items, q.run items = items.filter fun item => p item

/-- Values of `filter` answer what one of them selects. -/
theorem answers_of_filters {texts : List String} (hne : texts ≠ [])
    (haccepted : ∀ text ∈ texts, Accepted text) {p : Item → Prop} [DecidablePred p]
    (hp : ∀ item, p item ↔ ∃ text ∈ texts, Selects text item) :
    Answers (texts.map ("filter", ·)) p := by
  obtain ⟨filters, hfilters⟩ :=
    exists_forall₂_iff.mpr fun text htext => accepted_iff.mp (haccepted text htext)
  have hmapM : texts.mapM filterOf = .ok filters := by
    simp only [mapM_eq_ok_iff, filterOf_eq_ok_iff, hfilters]
  refine ⟨{ filters := some filters }, ?_, fun items => ?_⟩
  · rw [ofPairs_filters hne, hmapM]
    rfl
  · have hrun : run { filters := some filters } items = items.filter (Filter.anyMatches filters) :=
      List.map_id _
    rw [hrun]
    refine List.filter_congr fun item _ => ?_
    rw [Bool.eq_iff_iff, decide_eq_true_iff, hp, anyMatches_iff hne hfilters]

/-! ## Filters beside other parameters -/

theorem mem_values {name text : String} {pairs : List (String × String)} :
    text ∈ values name pairs ↔ (name, text) ∈ pairs := by
  simp [values]

/-- A value of `filter` is one more beside the others, wherever it stands. -/
theorem mem_values_filter {before after : List (String × String)} {text other : String} :
    other ∈ values "filter" (before ++ ("filter", text) :: after) ↔
      other = text ∨ other ∈ values "filter" (before ++ after) := by
  simp only [mem_values, List.mem_append, List.mem_cons, Prod.mk.injEq, true_and]
  exact or_left_comm

/-- It is no value of another parameter. -/
theorem values_of_ne_filter {name : String} (h : "filter" ≠ name)
    (before after : List (String × String)) (text : String) :
    values name (before ++ ("filter", text) :: after) = values name (before ++ after) := by
  simp only [values, List.filter_append, List.filter_cons, beq_eq_false_iff_ne.mpr h,
    Bool.false_eq_true, if_false]

/-- With a value of `filter` an item passes if that one or another selects it. -/
theorem keeps_filter_iff {before after : List (String × String)} {a : String} {q : Query}
    (h : ofPairs (before ++ ("filter", a) :: after) = .ok q) (item : Item) :
    q.keeps item = true ↔
      Selects a item ∨ ∃ text ∈ values "filter" (before ++ after), Selects text item := by
  have hsome : values "filter" (before ++ ("filter", a) :: after) ≠ [] :=
    List.ne_nil_of_mem (mem_values_filter.mpr (.inl rfl))
  simp only [keeps_iff h, hsome, false_or, mem_values_filter, or_and_right, exists_or,
    exists_eq_left]

/-- A query leaves no item that another does not leave. -/
structure Narrower (r q : Query) : Prop where
  kept : ∀ items, (r.kept items).Sublist (q.kept items)
  /-- no item is answered that the other does not answer, if all is on one page: otherwise items
  move up from later pages -/
  run : q.limit = none → q.offset = none → ∀ items, (r.run items).Sublist (q.run items)

/-- All that passes the filters is shown if all is on one page. -/
theorem run_of_unpaged {q : Query} (hlimit : q.limit = none) (hoffset : q.offset = none)
    (items : List Item) : q.run items = (q.kept items).map q.shows := by
  rw [run, page, hlimit, hoffset]
  rfl

theorem narrower_of_keeps {q : Query} {filters : Option (List Filter)}
    (h : ∀ item, keeps { q with filters } item = true → q.keeps item = true) :
    Narrower { q with filters } q := by
  have hkept : ∀ items, (kept { q with filters } items).Sublist (q.kept items) := fun items =>
    List.monotone_filter_right items h
  refine ⟨hkept, fun hlimit hoffset items => ?_⟩
  rw [run_of_unpaged hlimit hoffset, @run_of_unpaged { q with filters } hlimit hoffset]
  exact (hkept items).map _

/-- Another value of `filter` in the place of one, or beside others, leaves the other parts of the
query. -/
theorem exists_ofPairs_filter {before after others : List (String × String)} {b : String} {q : Query}
    (hvalues : ∀ {name}, "filter" ≠ name → values name others = values name (before ++ after))
    (h : ofPairs others = .ok q)
    (hfilter : ∀ text ∈ values "filter" (before ++ after), Accepted text) (hb : Accepted b) :
    ∃ filters, ofPairs (before ++ ("filter", b) :: after) = .ok { q with filters := filters } := by
  have hsame : ∀ {name}, "filter" ≠ name →
      values name others = values name (before ++ ("filter", b) :: after) := fun hname =>
    (hvalues hname).trans (values_of_ne_filter hname before after b).symm
  refine exists_ofPairs h (hsame (by decide)) (congrArg _ (hsame (by decide)))
    (congrArg _ (hsame (by decide))) fun text htext => ?_
  rcases mem_values_filter.mp htext with rfl | htext
  · exact hb
  · exact hfilter text htext

/-- A clause that is added to a value leaves fewer items. -/
theorem exists_narrower {before after : List (String × String)} {a b : String} {q : Query}
    (h : ofPairs (before ++ ("filter", a) :: after) = .ok q) (hb : Accepted b) :
    ∃ r, ofPairs (before ++ ("filter", a ++ "," ++ b) :: after) = .ok r ∧ Narrower r q := by
  have hother : ∀ text ∈ values "filter" (before ++ after), Accepted text := fun text htext =>
    accepted_of_ofPairs h (mem_values_filter.mpr (.inr htext))
  have ha : Accepted a := accepted_of_ofPairs h (mem_values_filter.mpr (.inl rfl))
  obtain ⟨filters, hr⟩ := exists_ofPairs_filter
    (fun hname => values_of_ne_filter hname before after a) h hother (accepted_join_iff.mpr ⟨ha, hb⟩)
  refine ⟨_, hr, narrower_of_keeps fun item => ?_⟩
  rw [keeps_filter_iff hr, keeps_filter_iff h, selects_join_iff]
  exact Or.imp_left And.left

/-- A value that is added to others leaves more items. -/
theorem exists_wider {before after : List (String × String)} {b : String} {q : Query}
    (hsome : values "filter" (before ++ after) ≠ []) (h : ofPairs (before ++ after) = .ok q)
    (hb : Accepted b) :
    ∃ r, ofPairs (before ++ ("filter", b) :: after) = .ok r ∧ Narrower q r := by
  obtain ⟨filters, hr⟩ := exists_ofPairs_filter (fun _ => rfl) h
    (fun _ htext => accepted_of_ofPairs h htext) hb
  refine ⟨_, hr, @narrower_of_keeps { q with filters } q.filters fun item hkept => ?_⟩
  exact (keeps_filter_iff hr item).mpr (.inr (((keeps_iff h item).mp hkept).resolve_left hsome))

/-! ## Filters in another order -/

/-- The same values of `filter` in another order, the clauses of each in another order; of the other
parameters the values that count are the same. -/
structure Rearranged (pairs others : List (String × String)) : Prop where
  select : values "select" pairs = values "select" others
  limit : (values "limit" pairs).head? = (values "limit" others).head?
  offset : (values "offset" pairs).head? = (values "offset" others).head?
  filter : ∃ texts, (values "filter" pairs).Perm texts ∧
    List.Forall₂ SameClauses texts (values "filter" others)

theorem exists_rearranged {pairs others : List (String × String)} {q : Query}
    (hrearranged : Rearranged pairs others) (h : ofPairs pairs = .ok q) :
    ∃ r, ofPairs others = .ok r ∧ ∀ items, r.run items = q.run items := by
  obtain ⟨texts, hperm, hclauses⟩ := hrearranged.filter
  have haccepted : ∀ text ∈ values "filter" others, Accepted text :=
    (forall_mem_iff_of_forall₂ hclauses SameClauses.accepted_iff).mp fun text htext =>
      accepted_of_ofPairs h (hperm.mem_iff.mpr htext)
  obtain ⟨filters, hr⟩ :=
    exists_ofPairs h hrearranged.select hrearranged.limit hrearranged.offset haccepted
  have hnil : values "filter" others = [] ↔ values "filter" pairs = [] := by
    rw [← List.length_eq_zero_iff, ← List.length_eq_zero_iff, hperm.length_eq, hclauses.length_eq]
  have hselects : ∀ item, (∃ text ∈ values "filter" others, Selects text item) ↔
      ∃ text ∈ values "filter" pairs, Selects text item := by
    intro item
    rw [← exists_mem_iff_of_forall₂ hclauses fun hsame => hsame.selects_iff item]
    simp only [hperm.mem_iff]
  have hkeeps : keeps { q with filters } = q.keeps := funext fun item => by
    rw [Bool.eq_iff_iff, keeps_iff hr, keeps_iff h, hnil, hselects]
  refine ⟨_, hr, fun items => ?_⟩
  exact congrArg (fun keep => q.page ((items.filter keep).map q.shows)) hkeeps

/-- Filters are combined as sets are: values unite what they select, and clauses intersect it. -/
structure Filtering : Prop where
  alone : ∀ {a}, Accepted a → Answers [("filter", a)] (Selects a)
  union : ∀ {a b}, Accepted a → Accepted b →
    Answers [("filter", a), ("filter", b)] fun item => Selects a item ∨ Selects b item
  intersection : ∀ {a b}, Accepted a → Accepted b →
    Answers [("filter", a ++ "," ++ b)] fun item => Selects a item ∧ Selects b item
  /-- with a clause more in a value no item is left that was not left without it -/
  narrowed : ∀ {before after a b q}, ofPairs (before ++ ("filter", a) :: after) = .ok q →
    Accepted b →
      ∃ r, ofPairs (before ++ ("filter", a ++ "," ++ b) :: after) = .ok r ∧ Narrower r q
  /-- with a value more beside others all items are left that were left without it -/
  widened : ∀ {before after b q}, values "filter" (before ++ after) ≠ [] →
    ofPairs (before ++ after) = .ok q → Accepted b →
      ∃ r, ofPairs (before ++ ("filter", b) :: after) = .ok r ∧ Narrower q r
  /-- the order does not count, neither that of the values nor that of the clauses in them -/
  rearranged : ∀ {pairs others q}, Rearranged pairs others → ofPairs pairs = .ok q →
    ∃ r, ofPairs others = .ok r ∧ ∀ items, r.run items = q.run items

theorem filtering : Filtering where
  alone {a} ha := @answers_of_filters [a] (by simp) (by simpa using ha) _ _ (by simp)
  union {a b} ha hb := @answers_of_filters [a, b] (by simp) (by simp [ha, hb]) _ _ (by simp)
  intersection {a b} ha hb := @answers_of_filters [a ++ "," ++ b] (by simp)
    (by simpa using accepted_join_iff.mpr ⟨ha, hb⟩) _ _ (by simp [selects_join_iff])
  narrowed := exists_narrower
  widened := exists_wider
  rearranged := exists_rearranged

/-- Two of three items: the first by the one value, the last by the other. -/
theorem filtering_three : Accepted "a:eq:1" ∧ Accepted "b:sub:x,b:sub:y" ∧
    Answers [("filter", "a:eq:1"), ("filter", "b:sub:x,b:sub:y")]
      (fun item => Selects "a:eq:1" item ∨ Selects "b:sub:x,b:sub:y" item) ∧
    ([[("a", .number (.ofNat 1))], [("b", .string "x")],
      [("b", .string "yx"), ("a", .null)]].filter (fun item : Item =>
        Selects "a:eq:1" item ∨ Selects "b:sub:x,b:sub:y" item)).map Entries.keys =
      [["a"], ["b", "a"]] :=
  have ha : Accepted "a:eq:1" := ⟨_, rfl⟩
  have hb : Accepted "b:sub:x,b:sub:y" := ⟨_, rfl⟩
  ⟨ha, hb, filtering.union ha hb, by decide +kernel⟩

end JsonCollections.Query
