import JsonCollections.Http.Target
import JsonCollections.Proofs.Collection.Names
import JsonCollections.Proofs.Number.Layout

set_option autoImplicit false

/-!
# The grammar of paths

`Target.Addresses` says what a path addresses: names with slashes between them a collection, and
such names, a slash and digits an item.  It mentions no splitting; the parser finds all that it says
and nothing else (`Target.ofText?_eq_some_iff`).  A path is of one kind only, since no name begins
with a digit.
-/

namespace JsonCollections.Http.Target

open Listing (IsName IsRoute isSegment_iff isRoute_iff)

/-! ## Ids -/

/-- The text is a numeral of the id: digits, at least one, whose value is below `ItemId.bound`. -/
def Numbers (digits : String) (id : ItemId) : Prop :=
  AreDigits digits.toList ∧ Nat.ofDigitChars 10 digits.toList 0 = id ∧ id < ItemId.bound

theorem idOf?_eq_some_iff {digits : String} {id : ItemId} :
    idOf? digits.toList = some id ↔ Numbers digits id := by
  unfold idOf? Numbers AreDigits
  simp only [List.all_eq_true]
  constructor
  · intro h
    split at h
    · rename_i hdigits
      obtain ⟨hne, hall, hlt⟩ := hdigits
      obtain rfl := Option.some.inj h
      exact ⟨⟨hne, hall⟩, rfl, hlt⟩
    · cases h
  · rintro ⟨⟨hne, hall⟩, rfl, hlt⟩
    rw [if_pos ⟨hne, hall, hlt⟩]

/-- An id is numbered by its decimal text. -/
theorem numbers_toString {id : ItemId} (h : id < ItemId.bound) : Numbers (toString id) id := by
  rw [Numbers, Nat.toString_eq_repr, Nat.toList_repr]
  exact ⟨areDigits_toDigits id, Nat.ofDigitChars_ten_toDigits, h⟩

/-- Digits are cut by no slash. -/
theorem Numbers.slash_not_mem {digits : String} {id : ItemId} (h : Numbers digits id) :
    '/' ∉ digits.toList :=
  fun hslash => absurd (h.1.2 '/' hslash) (by decide)

/-- A name begins with a letter, and no letter is a digit. -/
theorem Numbers.not_isName {digits : String} {id : ItemId} (h : Numbers digits id) :
    ¬ IsName digits := by
  rintro ⟨first, rest, hdigits, ⟨hletter, -⟩, -⟩
  have hdigit : first.isDigit = true := h.1.2 first (hdigits ▸ List.mem_cons_self)
  have hle : first ≤ '9' := by
    rw [Char.isDigit, Bool.and_eq_true, decide_eq_true_eq, decide_eq_true_eq] at hdigit
    exact hdigit.2
  exact absurd (Char.le_trans hletter hle) (by decide)

/-! ## Paths -/

/-- What a path addresses: names a collection, and names with a number after them an item. -/
inductive Addresses : String → Target → Prop where
  | collection {path : String} (hpath : IsRoute path) :
      Addresses path (.collection ("/api/" ++ path))
  | item {path digits : String} {id : ItemId} (hpath : IsRoute path) (hid : Numbers digits id) :
      Addresses (path ++ "/" ++ digits) (.item ("/api/" ++ path) id)

/-- What is made of the pieces between slashes. -/
theorem ofText?_of_splitOn {path : String} {before : List (List Char)} {last : List Char}
    (h : path.toList.splitOn '/' = before ++ [last]) : ofText? path =
      if before.all Location.isSegment then
        if Location.isSegment last then some (.collection ("/api/" ++ path))
        else if before = [] then none
        else (idOf? last).map (.item ("/api/" ++ String.ofList (['/'].intercalate before)) ·)
      else none := by
  have hpath : String.ofList (root ++ path.toList) = "/api/" ++ path := by
    rw [String.ofList_append, String.ofList_toList]
    rfl
  have hbefore : String.ofList (root ++ ['/'].intercalate before) =
      "/api/" ++ String.ofList (['/'].intercalate before) := by
    rw [String.ofList_append]
    rfl
  simp only [ofText?, ofChars?, h, List.dropLast_concat, List.getLast?_concat, Option.getD_some,
    hpath, hbefore]

/-- A text is what is before its last slash, the slash, and what is after it. -/
theorem eq_append_of_splitOn {path : String} {before : List (List Char)} {last : List Char}
    (h : path.toList.splitOn '/' = before ++ [last]) (hne : before ≠ []) :
    path = String.ofList (['/'].intercalate before) ++ "/" ++ String.ofList last := by
  have hpath : ['/'].intercalate before ++ ['/'] ++ last = path.toList := by
    rw [← Path.intercalate_concat_of_ne_nil _ hne, ← h, List.intercalate_splitOn]
  refine String.toList_inj.mp ?_
  rw [← hpath]
  simp only [String.toList_append, String.toList_ofList]
  rfl

theorem isRoute_intercalate {pieces : List (List Char)} (hne : pieces ≠ [])
    (h : ∀ piece ∈ pieces, Location.isSegment piece = true) :
    IsRoute (String.ofList (['/'].intercalate pieces)) := by
  have hslash : ∀ piece ∈ pieces, '/' ∉ piece := by
    intro piece hpiece
    have hname : IsName (String.ofList piece) := by
      rw [← isSegment_iff, String.toList_ofList]
      exact h piece hpiece
    rw [← String.toList_ofList (l := piece)]
    exact hname.not_mem (.inl rfl)
  rw [isRoute_iff, String.toList_ofList, List.splitOn_intercalate '/' hslash hne]
  exact h

/-- The parser finds nothing but what the grammar says. -/
theorem addresses_of_ofText? {path : String} {target : Target} (h : ofText? path = some target) :
    Addresses path target := by
  obtain ⟨before, last, hsplit⟩ : ∃ before last, path.toList.splitOn '/' = before ++ [last] :=
    ⟨_, _, (List.dropLast_append_getLast (List.splitOn_ne_nil '/' path.toList)).symm⟩
  rw [ofText?_of_splitOn hsplit] at h
  split at h
  · rename_i hbefore
    rw [List.all_eq_true] at hbefore
    split at h
    · rename_i hlast
      cases h
      refine .collection (isRoute_iff.mpr ?_)
      rw [hsplit]
      exact List.forall_mem_append.mpr ⟨hbefore, List.forall_mem_singleton.mpr hlast⟩
    · split at h
      · cases h
      · rename_i hne
        obtain ⟨id, hid, rfl⟩ := Option.map_eq_some_iff.mp h
        rw [eq_append_of_splitOn hsplit hne]
        refine .item (isRoute_intercalate hne hbefore) (idOf?_eq_some_iff.mp ?_)
        rw [String.toList_ofList]
        exact hid
  · cases h

/-- The parser finds all that the grammar says. -/
theorem Addresses.ofText? {path : String} {target : Target} (h : Addresses path target) :
    ofText? path = some target := by
  cases h with
  | collection hpath =>
    obtain ⟨before, last, hsplit⟩ : ∃ before last, path.toList.splitOn '/' = before ++ [last] :=
      ⟨_, _, (List.dropLast_append_getLast (List.splitOn_ne_nil '/' path.toList)).symm⟩
    rw [isRoute_iff, hsplit, List.forall_mem_append, List.forall_mem_singleton] at hpath
    rw [ofText?_of_splitOn hsplit, if_pos (List.all_eq_true.mpr hpath.1), if_pos hpath.2]
  | @item path digits id hpath hid =>
    obtain ⟨names, hne, hnames, rfl⟩ := hpath
    have hsplit : ("/".intercalate names ++ "/" ++ digits).toList.splitOn '/' =
        names.map String.toList ++ [digits.toList] := by
      have hslash : ∀ name ∈ names ++ [digits], '/' ∉ name.toList :=
        List.forall_mem_append.mpr ⟨fun name hname => (hnames name hname).not_mem (.inl rfl),
          List.forall_mem_singleton.mpr hid.slash_not_mem⟩
      rw [← Listing.intercalate_concat hne digits,
        Listing.splitOn_intercalate (List.concat_ne_nil digits names) hslash, List.map_append,
        List.map_singleton]
    have hbefore : (names.map String.toList).all Location.isSegment = true :=
      List.all_eq_true.mpr (List.forall_mem_map.mpr fun name hname =>
        isSegment_iff.mpr (hnames name hname))
    have hlast : ¬ Location.isSegment digits.toList = true :=
      fun hsegment => hid.not_isName (isSegment_iff.mp hsegment)
    have hpath : String.ofList (['/'].intercalate (names.map String.toList)) =
        "/".intercalate names := by
      rw [← String.ofList_toList (s := "/".intercalate names), String.toList_intercalate]
      rfl
    rw [ofText?_of_splitOn hsplit, if_pos hbefore, if_neg hlast,
      if_neg (List.map_eq_nil_iff.not.mpr hne), idOf?_eq_some_iff.mpr hid, hpath]
    rfl

theorem ofText?_eq_some_iff {path : String} {target : Target} :
    ofText? path = some target ↔ Addresses path target :=
  ⟨addresses_of_ofText?, Addresses.ofText?⟩

/-! ## The grammar -/

/-- The URL path of what is addressed. -/
def urlPath : Target → String
  | .collection urlPath => urlPath
  | .item urlPath _ => urlPath

theorem isPlain_of_ofText? {path : String} {target : Target} (h : ofText? path = some target) :
    Location.isPlain (Location.relative target.urlPath) = true := by
  cases addresses_of_ofText? h with
  | collection hpath => exact hpath.isPlain
  | item hpath hid => exact hpath.isPlain

/-- What paths address. -/
structure Grammar : Prop where
  /-- a collection, exactly if the path consists of names -/
  collection_iff : ∀ path urlPath, ofText? path = some (.collection urlPath) ↔
    IsRoute path ∧ urlPath = "/api/" ++ path
  /-- an item, exactly if the path consists of names and the digits of an id -/
  item_iff : ∀ path urlPath id, ofText? path = some (.item urlPath id) ↔
    ∃ front digits, path = front ++ "/" ++ digits ∧ IsRoute front ∧ Numbers digits id ∧
      urlPath = "/api/" ++ front
  /-- nothing, exactly if the path is of neither form -/
  none_iff : ∀ path, ofText? path = none ↔ ¬ IsRoute path ∧
    ¬ ∃ front digits id, path = front ++ "/" ++ digits ∧ IsRoute front ∧ Numbers digits id
  /-- names and the decimal text of an id are read back -/
  decimal : ∀ front id, IsRoute front → id < ItemId.bound →
    ofText? (front ++ "/" ++ toString id) = some (.item ("/api/" ++ front) id)
  /-- the URL path leads to a file below every base directory -/
  resolved : ∀ path target, ofText? path = some target →
    ∀ {σ : Type} [Storage σ] (store : σ) (base : Path),
      Location.resolve store base target.urlPath ≠ none

/-- Paths address what the grammar says. -/
theorem conforms : Grammar where
  collection_iff path urlPath := by
    rw [ofText?_eq_some_iff]
    constructor
    · intro h
      cases h with
      | collection hpath => exact ⟨hpath, rfl⟩
    · rintro ⟨hpath, rfl⟩
      exact .collection hpath
  item_iff path urlPath id := by
    rw [ofText?_eq_some_iff]
    constructor
    · intro h
      cases h with
      | item hpath hid => exact ⟨_, _, rfl, hpath, hid, rfl⟩
    · rintro ⟨front, digits, rfl, hpath, hid, rfl⟩
      exact .item hpath hid
  none_iff path := by
    rw [Option.eq_none_iff_forall_ne_some]
    simp only [Ne, ofText?_eq_some_iff]
    constructor
    · intro h
      refine ⟨fun hpath => h _ (.collection hpath), ?_⟩
      rintro ⟨front, digits, id, rfl, hpath, hid⟩
      exact h _ (.item hpath hid)
    · rintro ⟨hcollection, hitem⟩ target h
      cases h with
      | collection hpath => exact hcollection hpath
      | item hpath hid => exact hitem ⟨_, _, _, rfl, hpath, hid⟩
  decimal front id hpath hid := (Addresses.item hpath (numbers_toString hid)).ofText?
  resolved path target h _ _ store base := by
    rw [Ne, Location.resolve_eq_none_iff, isPlain_of_ofText? h]
    nofun

/-- Digits may begin with zeros, but not with a sign, and a slash does not end a path. -/
example : ofText? "shop/order_lines/007" = some (.item "/api/shop/order_lines" 7) ∧
    ofText? "products/+1" = none ∧ ofText? "products/" = none := by
  decide +kernel

end JsonCollections.Http.Target
