import JsonCollections.Proofs.Query.Grammar
import JsonCollections.Proofs.Text

set_option autoImplicit false

/-!
# Parameters by their names

`Query.Assembled` says which query the values of each parameter make, or which of them is reported,
and `Query.ofPairs_eq_iff` that this is the answer for all pairs.  So the order of pairs with
different names does not count, nor do pairs of other names, nor values of `limit` and `offset` after
the first (`Query.parameters`).
-/

namespace JsonCollections

/-! ## Indices -/

/-- The text is a numeral of the word with white space around it: digits, and a plus sign in front of
them or none. -/
def Numeral.Spells (s : String) (n : UInt64) : Prop :=
  ∃ before sign digits after, s.toList = before ++ (sign ++ digits) ++ after ∧
    (∀ c ∈ before, Text.isBlank c = true) ∧ (∀ c ∈ after, Text.isBlank c = true) ∧
      (sign = [] ∨ sign = ['+']) ∧ digits ≠ [] ∧ (∀ c ∈ digits, c.isDigit = true) ∧
        Nat.ofDigitChars 10 digits 0 = n.toNat

theorem Text.isBlank_of_isDigit {c : Char} (h : c.isDigit = true) : isBlank c = false := by
  have hdigit : 48 ≤ c.toNat ∧ c.toNat ≤ 57 := by
    simpa [Char.isDigit, UInt32.le_iff_toNat_le] using h
  unfold isBlank
  grind

namespace Numeral

/-- Digits without a sign are read as their value, unless it is too large. -/
theorem unsigned_eq_some_iff {digits : List Char} {n : UInt64} :
    (if digits ≠ [] ∧ digits.all Char.isDigit ∧ Nat.ofDigitChars 10 digits 0 < UInt64.size then
      some (UInt64.ofNat (Nat.ofDigitChars 10 digits 0)) else none) = some n ↔
    digits ≠ [] ∧ (∀ c ∈ digits, c.isDigit = true) ∧ Nat.ofDigitChars 10 digits 0 = n.toNat := by
  rw [← List.all_eq_true]
  constructor
  · intro h
    split at h
    · rename_i hdigits
      obtain ⟨hne, hall, hlt⟩ := hdigits
      refine ⟨hne, hall, ?_⟩
      rw [← Option.some.inj h]
      exact (UInt64.toNat_ofNat_of_lt hlt).symm
    · cases h
  · rintro ⟨hne, hall, hvalue⟩
    rw [if_pos ⟨hne, hall, hvalue ▸ n.toNat_lt⟩, hvalue, UInt64.ofNat_toNat]

/-- Digits are read as their value, with a plus sign in front or without. -/
theorem word?_eq_some_iff {s : List Char} {n : UInt64} :
    word? s = some n ↔ ∃ sign digits, s = sign ++ digits ∧ (sign = [] ∨ sign = ['+']) ∧
      digits ≠ [] ∧ (∀ c ∈ digits, c.isDigit = true) ∧ Nat.ofDigitChars 10 digits 0 = n.toNat := by
  unfold word?
  simp only [unsigned_eq_some_iff]
  constructor
  · intro h
    split at h
    · exact ⟨['+'], _, rfl, .inr rfl, h⟩
    · exact ⟨[], s, rfl, .inl rfl, h⟩
  · rintro ⟨sign, digits, rfl, rfl | rfl, hdigits⟩
    · -- a plus sign is no digit
      rw [List.nil_append]
      split
      · exact absurd (hdigits.2.1 '+' List.mem_cons_self) (by decide)
      · exact hdigits
    · exact hdigits

/-- An index is a word with white space around it. -/
theorem index?_eq_some_iff {s : String} {n : UInt64} :
    index? s.toList = some n ↔ Spells s n := by
  rw [index?, word?_eq_some_iff]
  constructor
  · rintro ⟨sign, digits, htrim, hdigits⟩
    obtain ⟨before, after, htext, hbefore, hafter, -, -⟩ := Text.exists_strip Text.isBlank s.toList
    rw [← Text.trim, htrim] at htext
    exact ⟨before, sign, digits, after, htext, hbefore, hafter, hdigits⟩
  · rintro ⟨before, sign, digits, after, htext, hbefore, hafter, hsign, hne, hdigits, hvalue⟩
    refine ⟨sign, digits, ?_, hsign, hne, hdigits, hvalue⟩
    rw [Text.trim, htext]
    refine Text.strip_append hbefore hafter (fun c hc => ?_) fun c hc => ?_
    · rcases hsign with rfl | rfl
      · exact Text.isBlank_of_isDigit (hdigits c (List.mem_of_head? hc))
      · rw [← Option.some.inj hc]
        decide
    · rw [List.getLast?_append_of_ne_nil _ hne] at hc
      exact Text.isBlank_of_isDigit (hdigits c (List.mem_of_getLast? hc))

end Numeral

/-! ## Texts between commas -/

/-- A relation that is a function holds of two lists if it maps the one to the other. -/
theorem forall₂_iff_map_eq {α β : Type} {R : α → β → Prop} {f : α → β}
    (h : ∀ x y, R x y ↔ f x = y) {xs : List α} {ys : List β} :
    List.Forall₂ R xs ys ↔ xs.map f = ys := by
  obtain rfl : R = fun x y => f x = y := funext₂ fun x y => propext (h x y)
  exact List.forall₂_map_left_iff.symm.trans (by rw [List.forall₂_eq_eq_eq])

/-- Pieces of texts that are joined are the pieces of each of them. -/
theorem Text.splitOn_intercalate_flatMap (separator : Char) {texts : List (List Char)}
    (h : texts ≠ []) : ([separator].intercalate texts).splitOn separator =
      texts.flatMap (·.splitOn separator) := by
  induction texts with
  | nil => exact absurd rfl h
  | cons text rest ih =>
    by_cases hrest : rest = []
    · rw [hrest, List.intercalate_singleton, List.flatMap_singleton]
    · rw [List.intercalate_cons_of_ne_nil hrest, List.append_assoc, List.singleton_append,
        List.splitOn_append_cons_self, ih hrest, List.flatMap_cons]

namespace Query

/-! ## The values of one parameter -/

/-- What the values of a parameter make of it; without values it is absent. -/
inductive Given {α : Type} (Means : List String → α → Prop) : List String → Option α → Prop where
  | absent : Given Means [] none
  | present {texts : List String} {x : α} (hne : texts ≠ []) (hmeans : Means texts x) :
      Given Means texts (some x)

/-- The keys are the pieces between commas of all values, one value after the other. -/
def Keys (texts keys : List String) : Prop :=
  ∃ pieces, List.Forall₂ (Text.Pieces ',') texts pieces ∧ keys = pieces.flatten

/-- The first value is a numeral of the word. -/
def Index (texts : List String) (n : UInt64) : Prop :=
  ∃ text, texts.head? = some text ∧ Numeral.Spells text n

/-- There is a first value, and it is no numeral. -/
def BadIndex (texts : List String) : Prop :=
  ∃ text, texts.head? = some text ∧ ∀ n, ¬ Numeral.Spells text n

theorem given_iff {α : Type} {Means : List String → α → Prop} {texts : List String}
    {x? : Option α} : Given Means texts x? ↔
      if texts = [] then x? = none else ∃ x, x? = some x ∧ Means texts x := by
  constructor
  · intro h
    cases h with
    | absent => exact if_pos rfl ▸ rfl
    | present hne hmeans =>
      rw [if_neg hne]
      exact ⟨_, rfl, hmeans⟩
  · intro h
    split at h
    · subst texts x?
      exact .absent
    · obtain ⟨x, rfl, hmeans⟩ := h
      exact .present ‹_› hmeans

theorem keys_iff {texts keys : List String} : Keys texts keys ↔
    texts.flatMap (fun text => (text.toList.splitOn ',').map String.ofList) = keys := by
  have hpieces : ∀ pieces, List.Forall₂ (Text.Pieces ',') texts pieces ↔
      texts.map (fun text => (text.toList.splitOn ',').map String.ofList) = pieces :=
    fun _ => forall₂_iff_map_eq (R := Text.Pieces ',') fun _ _ => Text.pieces_iff
  simp only [Keys, hpieces, exists_eq_left', List.flatMap_def]
  exact eq_comm

theorem selectOf_eq_iff {texts : List String} {select : Option (List String)} :
    selectOf texts = select ↔ Given Keys texts select := by
  rw [given_iff, selectOf]
  by_cases hne : texts = []
  · rw [if_pos hne, if_pos hne, eq_comm]
  · have htexts : texts.map String.toList ≠ [] := List.map_eq_nil_iff.not.mpr hne
    have hsplit := Text.splitOn_intercalate_flatMap ',' htexts
    rw [if_neg hne, if_neg hne, pieces, hsplit, List.flatMap_map, List.map_flatMap]
    simp only [keys_iff, exists_eq_right']
    exact eq_comm

theorem indexOf_eq_ok_iff {name : String} {error : QueryError} {pairs : List (String × String)}
    {index : Option UInt64} :
    indexOf name error pairs = .ok index ↔ Given Index (values name pairs) index := by
  rw [given_iff, indexOf]
  cases values name pairs with
  | nil => rw [if_pos rfl, List.head?_nil, Except.ok.injEq, eq_comm]
  | cons text rest =>
    simp only [Index, List.head?_cons, if_neg (List.cons_ne_nil text rest), Option.some.injEq,
      exists_eq_left', ← Numeral.index?_eq_some_iff]
    cases Numeral.index? text.toList with
    | none => simp
    | some n => simp only [Except.ok.injEq, Option.some.injEq, exists_eq_right', eq_comm]

theorem indexOf_eq_error_iff {name : String} {error reported : QueryError}
    {pairs : List (String × String)} :
    indexOf name error pairs = .error reported ↔
      BadIndex (values name pairs) ∧ reported = error := by
  rw [indexOf]
  cases values name pairs with
  | nil => simp only [BadIndex, List.head?_nil, reduceCtorEq, false_and, exists_false]
  | cons text rest =>
    simp only [BadIndex, List.head?_cons, Option.some.injEq, exists_eq_left',
      ← Numeral.index?_eq_some_iff]
    cases Numeral.index? text.toList with
    | none => simp [eq_comm]
    | some n => simp [eq_comm]

theorem filtersOf_eq_ok_iff {texts : List String} {filters : Option (List Filter)} :
    filtersOf texts = .ok filters ↔ Given (List.Forall₂ Spelled) texts filters := by
  rw [given_iff, filtersOf]
  by_cases hne : texts = []
  · rw [if_pos hne, if_pos hne, Except.ok.injEq, eq_comm]
  · rw [if_neg hne, if_neg hne]
    have hmapM : ∀ found, texts.mapM filterOf = .ok found ↔ List.Forall₂ Spelled texts found :=
      fun found => by simp only [mapM_eq_ok_iff, filterOf_eq_ok_iff]
    simp only [← hmapM]
    cases texts.mapM filterOf with
    | error error => exact ⟨nofun, nofun⟩
    | ok found =>
      simp only [Except.ok.injEq, exists_eq_right']
      exact ⟨fun h => (Except.ok.inj h).symm, fun h => congrArg Except.ok h.symm⟩

theorem filtersOf_eq_error_iff {texts : List String} {error : QueryError} :
    filtersOf texts = .error error ↔ Filtered texts (.error error) := by
  have hmapM : filtersOf texts = .error error ↔ texts.mapM filterOf = .error error := by
    rw [filtersOf]
    split
    · rename_i hnil
      rw [hnil]
      exact ⟨nofun, nofun⟩
    · cases texts.mapM filterOf with
      | error found =>
        constructor
        · rintro ⟨⟩
          rfl
        · rintro ⟨⟩
          rfl
      | ok found => exact ⟨nofun, nofun⟩
  rw [hmapM, mapM_eq_error_iff]
  simp only [filterOf_eq_ok_iff, filterOf_eq_error_iff]
  constructor
  · rintro ⟨before, value, after, hvalues, hbefore, pieces, piece, more, hcut, hpieces, hpiece⟩
    exact .refused hvalues hbefore hcut hpieces hpiece
  · intro h
    cases h with
    | refused hvalues hbefore hcut hpieces hpiece =>
      exact ⟨_, _, _, hvalues, hbefore, _, _, _, hcut, hpieces, hpiece⟩

/-! ## All parameters -/

/-- What comes of pairs.  A bad limit is reported before a bad offset, and that before the first
clause that is refused; otherwise each part of the query comes from the values of its parameter. -/
inductive Assembled (pairs : List (String × String)) : Except QueryError Query → Prop where
  | query {q : Query} (hselect : Given Keys (values "select" pairs) q.select)
      (hlimit : Given Index (values "limit" pairs) q.limit)
      (hoffset : Given Index (values "offset" pairs) q.offset)
      (hfilters : Given (List.Forall₂ Spelled) (values "filter" pairs) q.filters) :
      Assembled pairs (.ok q)
  | badLimit (hlimit : BadIndex (values "limit" pairs)) : Assembled pairs (.error .invalidLimit)
  | badOffset {limit : Option UInt64} (hlimit : Given Index (values "limit" pairs) limit)
      (hoffset : BadIndex (values "offset" pairs)) : Assembled pairs (.error .invalidOffset)
  | badClause {limit offset : Option UInt64} {error : QueryError}
      (hlimit : Given Index (values "limit" pairs) limit)
      (hoffset : Given Index (values "offset" pairs) offset)
      (hfilters : Filtered (values "filter" pairs) (.error error)) :
      Assembled pairs (.error error)

theorem assembled_ofPairs (pairs : List (String × String)) : Assembled pairs (ofPairs pairs) := by
  unfold ofPairs
  cases hlimit : indexOf "limit" .invalidLimit pairs with
  | error error =>
    obtain ⟨hbad, rfl⟩ := indexOf_eq_error_iff.mp hlimit
    exact .badLimit hbad
  | ok limit =>
    cases hoffset : indexOf "offset" .invalidOffset pairs with
    | error error =>
      obtain ⟨hbad, rfl⟩ := indexOf_eq_error_iff.mp hoffset
      exact .badOffset (indexOf_eq_ok_iff.mp hlimit) hbad
    | ok offset =>
      cases hfilters : filtersOf (values "filter" pairs) with
      | error error =>
        exact .badClause (indexOf_eq_ok_iff.mp hlimit) (indexOf_eq_ok_iff.mp hoffset)
          (filtersOf_eq_error_iff.mp hfilters)
      | ok filters =>
        exact .query (selectOf_eq_iff.mp rfl) (indexOf_eq_ok_iff.mp hlimit)
          (indexOf_eq_ok_iff.mp hoffset) (filtersOf_eq_ok_iff.mp hfilters)

theorem Assembled.eq {pairs : List (String × String)} {result : Except QueryError Query}
    (h : Assembled pairs result) : ofPairs pairs = result := by
  unfold ofPairs
  cases h with
  | query hselect hlimit hoffset hfilters =>
    rw [selectOf_eq_iff.mpr hselect, indexOf_eq_ok_iff.mpr hlimit, indexOf_eq_ok_iff.mpr hoffset,
      filtersOf_eq_ok_iff.mpr hfilters]
    rfl
  | badLimit hlimit =>
    rw [indexOf_eq_error_iff.mpr ⟨hlimit, rfl⟩]
    rfl
  | badOffset hlimit hoffset =>
    rw [indexOf_eq_ok_iff.mpr hlimit, indexOf_eq_error_iff.mpr ⟨hoffset, rfl⟩]
    rfl
  | badClause hlimit hoffset hfilters =>
    rw [indexOf_eq_ok_iff.mpr hlimit, indexOf_eq_ok_iff.mpr hoffset,
      filtersOf_eq_error_iff.mpr hfilters]
    rfl

/-- Pairs make what the values of the parameters say. -/
theorem ofPairs_eq_iff {pairs : List (String × String)} {result : Except QueryError Query} :
    ofPairs pairs = result ↔ Assembled pairs result :=
  ⟨fun h => h ▸ assembled_ofPairs pairs, Assembled.eq⟩

/-- Two lists of pairs have the same values of `select` and of `filter`, each in the same order, and
the same first values of `limit` and of `offset`. -/
structure SameValues (pairs others : List (String × String)) : Prop where
  select : values "select" pairs = values "select" others
  filter : values "filter" pairs = values "filter" others
  limit : (values "limit" pairs).head? = (values "limit" others).head?
  offset : (values "offset" pairs).head? = (values "offset" others).head?

theorem SameValues.ofPairs_eq {pairs others : List (String × String)}
    (h : SameValues pairs others) : ofPairs pairs = ofPairs others := by
  simp only [ofPairs, indexOf, h.select, h.filter, h.limit, h.offset]

/-- Only the values of each parameter count, and of `limit` and `offset` only the first; the answer is
what they say, and the numerals of words are the indices. -/
theorem parameters :
    (∀ pairs others, SameValues pairs others → ofPairs pairs = ofPairs others) ∧
    (∀ pairs result, ofPairs pairs = result ↔ Assembled pairs result) ∧
    ∀ text n, Numeral.index? text.toList = some n ↔ Numeral.Spells text n :=
  ⟨fun _ _ h => h.ofPairs_eq, fun _ _ => ofPairs_eq_iff, fun _ _ => Numeral.index?_eq_some_iff⟩

/-- Pairs of another name and later values may go, and different names may change places. -/
theorem parameters_reordered :
    SameValues [("filter", "a:sub:b"), ("sort", "a"), ("limit", "7"), ("limit", "x")]
      [("limit", "7"), ("filter", "a:sub:b")] ∧
    ofPairs [("filter", "a:sub:b"), ("sort", "a"), ("limit", "7"), ("limit", "x")] =
      ofPairs [("limit", "7"), ("filter", "a:sub:b")] :=
  ⟨⟨rfl, rfl, rfl, rfl⟩, parameters.1 _ _ ⟨rfl, rfl, rfl, rfl⟩⟩

end Query

end JsonCollections
