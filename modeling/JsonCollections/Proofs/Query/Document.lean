import JsonCollections.Proofs.Entries
import JsonCollections.Proofs.Number.Operand
import JsonCollections.Query.Document
import Mathlib.Data.List.Forall2

set_option autoImplicit false

/-!
# Queries survive as documents

A query that is written as a document and read back is the query itself, except that zeros lose
their sign (`Query.ofJson_toJson`).  Signs of zeros do not count: the query that comes back is equal
if operands are compared as numbers, it is written as the same document, and it gives the same
answers (`Query.reread`).
-/

namespace JsonCollections

/-! ## Equality by value -/

/-- Equal primitives, numbers by value. -/
inductive Primitive.Equal : Primitive → Primitive → Prop where
  | null : Equal .null .null
  | bool (b : Bool) : Equal (.bool b) (.bool b)
  | number {x y : Double} (h : x.sameValue y = true) : Equal (.number x) (.number y)
  | string (s : String) : Equal (.string s) (.string s)

/-- Equal conditions, operands by value. -/
inductive Condition.Equal : Condition → Condition → Prop where
  | comparison (op : Comparison) {x y : Double} (h : x.sameValue y = true) :
      Equal (.comparison op x) (.comparison op y)
  | contains (s : String) : Equal (.contains s) (.contains s)
  | equality (op : Equality) {p q : Primitive} (h : p.Equal q) :
      Equal (.equality op p) (.equality op q)

/-- Equal clauses, operands by value. -/
structure Clause.Equal (c d : Clause) : Prop where
  path : c.path = d.path
  condition : c.condition.Equal d.condition

/-- Equal queries, operands by value. -/
structure Query.Equal (q r : Query) : Prop where
  select : q.select = r.select
  filters : Option.Rel (List.Forall₂ (List.Forall₂ Clause.Equal)) q.filters r.filters
  limit : q.limit = r.limit
  offset : q.offset = r.offset

/-! ## Equal queries give equal answers -/

theorem Primitive.Equal.matchesJson_eq {p q : Primitive} (h : p.Equal q) (v : Json) :
    p.matchesJson v = q.matchesJson v := by
  cases h with
  | null | bool | string => rfl
  | number h =>
    have hscaled := (Double.sameValue_iff _ _).mp h
    cases v <;> simp only [matchesJson, Double.sameValue, hscaled]

theorem Condition.Equal.holds_eq {c d : Condition} (h : c.Equal d) (v : Json) :
    c.holds v = d.holds v := by
  cases h with
  | contains => rfl
  | comparison op h =>
    have hscaled := (Double.sameValue_iff _ _).mp h
    cases v with
    | number n =>
      cases op <;> simp only [holds, Comparison.holds, Double.lt, Double.le, hscaled]
    | null | bool | string | array | object => rfl
  | equality op h =>
    cases v with
    | object | array => cases op <;> rfl
    | null | bool | number | string => cases op <;> simp only [holds, h.matchesJson_eq]

theorem Clause.Equal.matchesItem_eq {c d : Clause} (h : c.Equal d) (item : Item) :
    c.matchesItem item = d.matchesItem item := by
  simp only [matchesItem, h.path, h.condition.holds_eq]

theorem Filter.matchesItem_eq {f g : Filter} (h : List.Forall₂ Clause.Equal f g) (item : Item) :
    f.matchesItem item = g.matchesItem item := by
  unfold Filter.matchesItem
  induction h with
  | nil => rfl
  | cons hclause _ ih => rw [List.all_cons, List.all_cons, hclause.matchesItem_eq, ih]

theorem Filter.anyMatches_eq {filters others : List Filter}
    (h : List.Forall₂ (List.Forall₂ Clause.Equal) filters others) (item : Item) :
    anyMatches filters item = anyMatches others item := by
  have hany : filters.any (·.matchesItem item) = others.any (·.matchesItem item) := by
    induction h with
    | nil => rfl
    | cons hfilter _ ih => rw [List.any_cons, List.any_cons, matchesItem_eq hfilter, ih]
  have hempty : filters.isEmpty = others.isEmpty := by
    cases h <;> rfl
  rw [anyMatches, anyMatches, hany, hempty]

/-- The sign of a zero does not show in an answer. -/
theorem Query.Equal.run_eq {q r : Query} (h : q.Equal r) (items : List Item) :
    q.run items = r.run items := by
  have hkeeps : q.keeps = r.keeps := by
    funext item
    have hfilters := h.filters
    unfold keeps
    generalize q.filters = filters at hfilters
    generalize r.filters = others at hfilters
    cases hfilters with
    | none => rfl
    | some hfilters => exact Filter.anyMatches_eq hfilters item
  have hshows : q.shows = r.shows := funext fun item => by simp only [shows, h.select]
  have hpage : ∀ rest : List Item, q.page rest = r.page rest :=
    fun rest => by simp only [page, h.limit, h.offset]
  rw [run, run, hkeeps, hshows, hpage]

/-! ## Queries with plain zeros -/

/-- The primitive with a plain zero. -/
def Primitive.plain : Primitive → Primitive
  | .number x => .number x.plain
  | p => p

/-- The condition with a plain zero as operand. -/
def Condition.plain : Condition → Condition
  | .comparison op x => .comparison op x.plain
  | .contains s => .contains s
  | .equality op p => .equality op p.plain

/-- The clause with a plain zero as operand. -/
def Clause.plain (c : Clause) : Clause := { c with condition := c.condition.plain }

/-- The query with plain zeros as operands. -/
def Query.plain (q : Query) : Query :=
  { q with filters := q.filters.map fun filters => filters.map fun f => f.map Clause.plain }

theorem Double.sameValue_plain (x : Double) : x.sameValue x.plain = true :=
  (sameValue_iff _ _).mpr x.scaled_plain.symm

theorem Primitive.equal_plain (p : Primitive) : p.Equal p.plain := by
  cases p with
  | null => exact .null
  | bool b => exact .bool b
  | number x => exact .number x.sameValue_plain
  | string s => exact .string s

theorem Clause.equal_plain (c : Clause) : c.Equal c.plain := by
  refine ⟨rfl, ?_⟩
  obtain ⟨path, condition⟩ := c
  cases condition with
  | comparison op x => exact .comparison op x.sameValue_plain
  | contains s => exact .contains s
  | equality op p => exact .equality op p.equal_plain

theorem Query.equal_plain (q : Query) : q.Equal q.plain := by
  refine ⟨rfl, ?_, rfl, rfl⟩
  have hfilter : ∀ f : Filter, List.Forall₂ Clause.Equal f (f.map Clause.plain) := by
    intro f
    rw [List.forall₂_map_right_iff]
    exact List.forall₂_same.mpr fun c _ => c.equal_plain
  change Option.Rel _ q.filters (q.filters.map _)
  cases q.filters with
  | none => exact .none
  | some filters =>
    refine .some ?_
    rw [List.forall₂_map_right_iff]
    exact List.forall₂_same.mpr fun f _ => hfilter f

/-! ## Writing -/

theorem Primitive.toJson_plain (p : Primitive) : p.plain.toJson = p.toJson := by
  cases p with
  | number x => exact congrArg Json.number (Json.Number.ofOperand_plain x)
  | null | bool | string => rfl

theorem Clause.toJson_plain (c : Clause) : c.plain.toJson = c.toJson := by
  obtain ⟨path, condition⟩ := c
  cases condition with
  | comparison op x =>
    simp only [plain, Condition.plain, toJson, Condition.operand, Condition.operator,
      Json.Number.ofOperand_plain]
  | contains s => rfl
  | equality op p =>
    simp only [plain, Condition.plain, toJson, Condition.operand, Condition.operator,
      Primitive.toJson_plain]

/-- A negative zero is written as zero. -/
example : (Clause.mk ["age"] (.comparison .lt (.zero true))).toJson =
    .array [.array [.string "age"], .string "lt", .number (.ofNat 0)] := by
  have hzero : Json.Number.ofOperand (.zero true) = .ofNat 0 := by decide +kernel
  simp only [Clause.toJson, Condition.operand, Condition.operator, Operator.name, List.map_cons,
    List.map_nil, hzero]

/-- Zeros are written without a sign. -/
theorem Query.toJson_plain (q : Query) : q.plain.toJson = q.toJson := by
  have hclauses : ∀ f : Filter, (f.map Clause.plain).map Clause.toJson = f.map Clause.toJson := by
    intro f
    rw [List.map_map]
    exact List.map_congr_left fun c _ => c.toJson_plain
  unfold toJson plain
  cases q.filters with
  | none => rfl
  | some filters =>
    simp only [Option.map_some, List.map_map, Function.comp_def, hclauses]

/-! ## Reading -/

/-- A list is read back if each thing in it is. -/
theorem Json.readList_map {α β : Type} {read : Json → Except DocumentFault β} {write : α → Json}
    {same : α → β} (h : ∀ x, read (write x) = .ok (same x)) (xs : List α) :
    readList read (.array (xs.map write)) = .ok (xs.map same) := by
  refine mapM_eq_ok_iff.mpr ?_
  rw [List.forall₂_map_left_iff, List.forall₂_map_right_iff]
  exact List.forall₂_same.mpr fun x _ => h x

theorem Json.readStrings (texts : List String) :
    readList readString (.array (texts.map .string)) = .ok texts := by
  have hread : ∀ s, readString (.string s) = .ok (id s) := fun _ => rfl
  rw [readList_map hread, List.map_id]

theorem Primitive.ofJson?_toJson (p : Primitive) : ofJson? p.toJson = some p.plain := by
  cases p with
  | number x => exact congrArg (fun y => some (Primitive.number y)) (Json.Number.toDouble_ofOperand x)
  | null | bool | string => rfl

theorem Clause.conditionOfJson_operand (c : Condition) :
    conditionOfJson c.operator c.operand = .ok c.plain := by
  cases c with
  | comparison op x =>
    simp only [conditionOfJson, Condition.operator, Condition.operand, Condition.plain,
      Json.Number.toDouble_ofOperand]
  | contains s => rfl
  | equality op p =>
    simp only [conditionOfJson, Condition.operator, Condition.operand, Primitive.ofJson?_toJson,
      Condition.plain]

theorem Clause.ofJson_toJson (c : Clause) : ofJson c.toJson = .ok c.plain := by
  have hname : Operator.ofName c.condition.operator.name = .ok c.condition.operator := by
    rw [Operator.ofName, (Operator.ofName?_eq_some_iff _ _).mpr rfl]
  have hcondition : (Operator.ofName c.condition.operator.name).bind
      (conditionOfJson · c.condition.operand) = .ok c.condition.plain := by
    rw [hname]
    exact conditionOfJson_operand c.condition
  simp only [toJson, ofJson, Json.readStrings, hcondition]
  rfl

theorem Json.readWord_ofNat (n : UInt64) : readWord (.number (.ofNat n.toNat)) = .ok n := by
  have hlt := n.toNat_lt
  have hrange : -0x8000000000000000 ≤ (n.toNat : Int) ∧ (n.toNat : Int) < 0x10000000000000000 := by
    omega
  rw [Number.ofNat, Number.ofInt?_of_inRange hrange, Option.getD_some, readWord,
    if_pos (Int.natCast_nonneg _), Int.toNat_natCast, UInt64.ofNat_toNat]

namespace Query

/-- A part that is present is read into the query, one that is absent leaves it alone. -/
theorem foldlM_part {α : Type} {name : String} {write : α → Json} {q : Query}
    {after : α → Query} (h : ∀ x, q.setEntry (name, write x) = .ok (after x)) (part : Option α) :
    (part.map fun x => (name, write x)).toList.foldlM setEntry q = .ok (part.elim q after) := by
  cases part with
  | none => rfl
  | some x =>
    rw [Option.map_some, Option.toList_some, List.foldlM_cons, h]
    rfl

/-- Reading undoes writing, the signs of zeros apart. -/
theorem ofJson_toJson (q : Query) : ofJson q.toJson = .ok q.plain := by
  have hselect : ∀ (r : Query) (keys : List String),
      r.setEntry ("select", .array (keys.map .string)) = .ok { r with select := some keys } := by
    intro r keys
    simp only [setEntry, Json.readOptional, Json.readStrings]
    rfl
  have hfilters : ∀ (r : Query) (filters : List Filter),
      r.setEntry ("filters", .array (filters.map fun f => .array (f.map Clause.toJson))) =
        .ok { r with filters := some (filters.map fun f => f.map Clause.plain) } := by
    intro r filters
    have hread := Json.readList_map (Json.readList_map Clause.ofJson_toJson) filters
    simp only [setEntry, Json.readOptional, hread]
    rfl
  have hlimit : ∀ (r : Query) (n : UInt64),
      r.setEntry ("limit", .number (.ofNat n.toNat)) = .ok { r with limit := some n } := by
    intro r n
    simp only [setEntry, Json.readOptional, Json.readWord_ofNat]
    rfl
  have hoffset : ∀ (r : Query) (n : UInt64),
      r.setEntry ("offset", .number (.ofNat n.toNat)) = .ok { r with offset := some n } := by
    intro r n
    simp only [setEntry, Json.readOptional, Json.readWord_ofNat]
    rfl
  obtain ⟨select, filters, limit, offset⟩ := q
  unfold toJson ofJson
  simp only [List.foldlM_append, foldlM_part (hselect _), foldlM_part (hfilters _),
    foldlM_part (hlimit _), foldlM_part (hoffset _)]
  cases select <;> cases filters <;> cases limit <;> cases offset <;> rfl

/-- A query is read back from its document, equal by value and written as the same document, and it
gives the same answers. -/
theorem reread (q : Query) : ∃ r, ofJson q.toJson = .ok r ∧ q.Equal r ∧ r.toJson = q.toJson ∧
    ∀ items, r.run items = q.run items :=
  ⟨q.plain, q.ofJson_toJson, q.equal_plain, q.toJson_plain,
    fun items => (q.equal_plain.run_eq items).symm⟩

end Query

end JsonCollections
