import JsonCollections.Proofs.Json.Numeral
import JsonCollections.Proofs.Json.Quoted
import JsonCollections.Proofs.Json.Shape

set_option autoImplicit false

/-!
# Reading documents that were written

The reader answers a written document exactly if the nesting fits into the room it has, and refuses
it as malformed if not (`value_write`).  The statement is one for all spacings that consist of
blanks, so it serves both layouts.  The induction follows the document, with one statement for a
document, one for the items of an array and one for the entries of an object.

`read_indented` and `read_compact` say it of whole texts.
-/

namespace JsonCollections.Json

/-! ## Blanks -/

/-- A text of blanks. -/
def AreBlanks (s : List Char) : Prop := ∀ c ∈ s, Reader.isBlank c = true

/-- What stands between tokens is blank. -/
structure Spacing.Blank (spacing : Spacing) : Prop where
  lineBreak : ∀ level, AreBlanks (spacing.lineBreak level)
  afterColon : AreBlanks spacing.afterColon

theorem Spacing.none_blank : Spacing.none.Blank :=
  ⟨fun _ _ hc => absurd hc List.not_mem_nil, fun _ hc => absurd hc List.not_mem_nil⟩

theorem Spacing.lines_blank : Spacing.lines.Blank := by
  constructor
  · intro level c hc
    rcases List.mem_cons.mp hc with rfl | hc
    · rfl
    · rw [(List.mem_replicate.mp hc).2]
      rfl
  · intro c hc
    rw [List.mem_singleton.mp hc]
    rfl

namespace Reader

theorem skipBlanks_append {s : List Char} (hs : AreBlanks s) (rest : List Char) :
    skipBlanks (s ++ rest) = skipBlanks rest := List.dropWhile_append_of_pos hs

theorem skipBlanks_cons {c : Char} (hc : isBlank c = false) (rest : List Char) :
    skipBlanks (c :: rest) = c :: rest := List.dropWhile_cons_of_neg (by simp [hc])

/-- Blanks in front of a document do not count. -/
theorem value_blanks {s : List Char} (hs : AreBlanks s) (fuel room : Nat) (rest : List Char) :
    value fuel room (s ++ rest) = value fuel room rest := by
  cases fuel with
  | zero => rfl
  | succ fuel => rw [value, value, skipBlanks_append hs]

theorem items_blanks {s : List Char} (hs : AreBlanks s) (fuel room : Nat) (rest : List Char) :
    items fuel room (s ++ rest) = items fuel room rest := by
  cases fuel with
  | zero => rfl
  | succ fuel => rw [items, items, value_blanks hs]

theorem members_blanks {s : List Char} (hs : AreBlanks s) (fuel room : Nat) (rest : List Char) :
    members fuel room (s ++ rest) = members fuel room rest := by
  cases fuel with
  | zero => rfl
  | succ fuel => rw [members, members, key, key, skipBlanks_append hs]

/-! ## Tokens -/

/-- A number begins with neither a blank nor a bracket. -/
theorem isBlank_eq_false_of_number {c : Char} (hc : c = '-' ∨ c.isDigit = true) :
    isBlank c = false ∧ c ≠ ']' := by
  constructor
  · rw [Bool.eq_false_iff]
    intro hblank
    simp only [isBlank, Bool.or_eq_true, beq_iff_eq, or_assoc] at hblank
    rcases hblank with rfl | rfl | rfl | rfl <;> revert hc <;> decide
  · rintro rfl
    exact absurd hc (by decide)

/-- A document that begins like a number is one. -/
theorem value_number {c : Char} {s : List Char} (hc : c = '-' ∨ c.isDigit = true) (fuel room : Nat) :
    value (fuel + 1) room (c :: s) = (number (c :: s)).map fun (n, rest) => (.number n, rest) := by
  rw [value, skipBlanks_cons (isBlank_eq_false_of_number hc).1]
  split
  case h_1 heq => cases heq
  case h_8 heq =>
    cases heq
    rw [if_pos hc]
    cases number (c :: s) <;> rfl
  all_goals
    rename_i heq
    cases heq
    exact absurd hc (by decide)

theorem key_quoted (k : String) (rest : List Char) : key (quoted k ++ rest) = .ok (k, rest) := by
  have hstring := string_append k rest
  rw [quoted, List.cons_append, List.append_assoc, List.singleton_append, key,
    skipBlanks_cons (by decide)]
  exact hstring

theorem colon_cons (rest : List Char) : colon (':' :: rest) = .ok ((), rest) := rfl

end Reader

/-! ## Brackets -/

/-- What stands before every item goes in front of the first one and behind every comma. -/
theorem intercalate_map_append (before t : List Char) (ts : List (List Char)) :
    [','].intercalate ((t :: ts).map (before ++ ·)) =
      before ++ (',' :: before).intercalate (t :: ts) := by
  induction ts generalizing t with
  | nil => rw [List.map_singleton, List.intercalate_singleton, List.intercalate_singleton]
  | cons u ts ih =>
    rw [List.map_cons, List.map_cons, List.intercalate_cons_cons, ← List.map_cons, ih,
      List.intercalate_cons_cons, List.append_assoc, List.append_assoc, List.append_assoc,
      List.singleton_append, List.cons_append]

/-- The text between brackets that is not empty. -/
theorem bracketed_cons (spacing : Spacing) (level : Nat) (opening closing : Char) (t : List Char)
    (ts : List (List Char)) (rest : List Char) :
    bracketed spacing level opening closing (t :: ts) ++ rest =
      opening :: (spacing.lineBreak (level + 1) ++
        ((',' :: spacing.lineBreak (level + 1)).intercalate (t :: ts) ++
          (spacing.lineBreak level ++ closing :: rest))) := by
  rw [bracketed, if_neg (List.cons_ne_nil _ _), intercalate_map_append]
  simp only [List.cons_append, List.append_assoc, List.nil_append]

theorem length_bracketed_cons (spacing : Spacing) (level : Nat) (opening closing : Char)
    (t : List Char) (ts : List (List Char)) :
    ((',' :: spacing.lineBreak (level + 1)).intercalate (t :: ts)).length + 2 ≤
      (bracketed spacing level opening closing (t :: ts)).length := by
  have hlength := congrArg List.length (bracketed_cons spacing level opening closing t ts [])
  simp only [List.append_nil, List.length_append, List.length_cons, List.length_nil] at hlength
  omega

theorem head?_intercalate (sep : List Char) (c : Char) (t : List Char) (ts : List (List Char)) :
    ∃ s, sep.intercalate ((c :: t) :: ts) = c :: s := by
  cases ts with
  | nil => exact ⟨t, List.intercalate_singleton⟩
  | cons u ts => exact ⟨_, by rw [List.intercalate_cons_cons, List.cons_append, List.cons_append]⟩

theorem endsNumber_blank {c : Char} (hc : Reader.isBlank c = true) :
    c.isDigit = false ∧ c ≠ '.' ∧ c ≠ 'e' ∧ c ≠ 'E' := by
  simp only [Reader.isBlank, Bool.or_eq_true, beq_iff_eq, or_assoc] at hc
  rcases hc with rfl | rfl | rfl | rfl <;> decide

/-- What closes a bracket ends a number. -/
theorem endsNumber_close {spacing : Spacing} (hspacing : spacing.Blank) (level : Nat) {c : Char}
    (hc : c.isDigit = false ∧ c ≠ '.' ∧ c ≠ 'e' ∧ c ≠ 'E') (rest : List Char) :
    EndsNumber (spacing.lineBreak level ++ c :: rest) := by
  intro d hd
  cases hbreak : spacing.lineBreak level with
  | nil =>
    rw [hbreak] at hd
    cases hd
    exact hc
  | cons b s =>
    rw [hbreak] at hd
    obtain rfl : b = d := Option.some.inj hd
    exact endsNumber_blank (hspacing.lineBreak level b (hbreak ▸ List.mem_cons_self))

/-! ## Documents -/

/-- A written document begins with a character that is neither blank nor closes a bracket. -/
theorem head?_write (spacing : Spacing) (level : Nat) (v : Json) :
    ∃ c s, v.write spacing level = c :: s ∧ Reader.isBlank c = false ∧ c ≠ ']' := by
  have bracket : ∀ (opening closing : Char) (ts : List (List Char)),
      ∃ s, bracketed spacing level opening closing ts = opening :: s := by
    intro opening closing ts
    unfold bracketed
    split
    · exact ⟨_, rfl⟩
    · exact ⟨_, rfl⟩
  cases v with
  | null => exact ⟨_, _, by rw [write], by decide⟩
  | bool b => cases b <;> exact ⟨_, _, by rw [write], by decide⟩
  | number n =>
    obtain ⟨sp, htext, -⟩ := Number.exists_spelling n
    obtain ⟨c, s, hsp, hc⟩ := Reader.head?_text sp
    exact ⟨c, s, by rw [write, ← htext, hsp], Reader.isBlank_eq_false_of_number hc⟩
  | string s => exact ⟨_, _, by rw [write, quoted], by decide⟩
  | array items =>
    obtain ⟨s, hs⟩ := bracket '[' ']' (writeItems spacing (level + 1) items)
    exact ⟨_, s, by rw [write, hs], by decide⟩
  | object fields =>
    obtain ⟨s, hs⟩ := bracket '\x7b' '\x7d' (writeFields spacing (level + 1) fields)
    exact ⟨_, s, by rw [write, hs], by decide⟩

namespace Reader

/-- An opening bracket is followed by items, unless it is closed at once. -/
theorem value_bracket {s t : List Char} {c : Char} (hs : AreBlanks s) (hblank : isBlank c = false)
    (hc : c ≠ ']') (fuel room : Nat) :
    value (fuel + 1) room ('[' :: (s ++ c :: t)) =
      if room = 0 then .error .malformed
      else (items fuel (room - 1) (c :: t)).map fun (found, rest) => (.array found, rest) := by
  rw [value, skipBlanks_cons (by decide)]
  cases room with
  | zero => rfl
  | succ room =>
    simp only [skipBlanks_append hs, skipBlanks_cons hblank, Nat.add_one_sub_one,
      Nat.add_one_ne_zero, if_false]
    split
    · rename_i heq
      exact absurd (List.cons.inj heq).1 hc
    · cases items fuel room (c :: t) <;> rfl

/-- An opening brace is followed by entries, unless it is closed at once. -/
theorem value_brace {s t : List Char} {c : Char} (hs : AreBlanks s) (hblank : isBlank c = false)
    (hc : c ≠ '\x7d') (fuel room : Nat) :
    value (fuel + 1) room ('\x7b' :: (s ++ c :: t)) =
      if room = 0 then .error .malformed
      else (members fuel (room - 1) (c :: t)).map fun (found, rest) =>
        (.object (Entries.ofList found), rest) := by
  rw [value, skipBlanks_cons (by decide)]
  cases room with
  | zero => rfl
  | succ room =>
    simp only [skipBlanks_append hs, skipBlanks_cons hblank, Nat.add_one_sub_one,
      Nat.add_one_ne_zero, if_false]
    split
    · rename_i heq
      exact absurd (List.cons.inj heq).1 hc
    · cases members fuel room (c :: t) <;> rfl

/-- What follows the first item: the bracket, or a comma and the other items. -/
theorem items_close {fuel room : Nat} {s close rest : List Char} {v : Json}
    (hclose : AreBlanks close) (hv : value fuel room s = .ok (v, close ++ ']' :: rest)) :
    items (fuel + 1) room s = .ok ([v], rest) := by
  rw [items, hv]
  simp only [bind, Except.bind, skipBlanks_append hclose, @skipBlanks_cons ']' (by decide)]

theorem items_comma {fuel room : Nat} {s rest : List Char} {v : Json}
    (hv : value fuel room s = .ok (v, ',' :: rest)) :
    items (fuel + 1) room s = (items fuel room rest).map fun (vs, rest) => (v :: vs, rest) := by
  rw [items, hv]
  simp only [bind, Except.bind, @skipBlanks_cons ',' (by decide)]
  cases items fuel room rest <;> rfl

theorem items_error {fuel room : Nat} {s : List Char} {fault : Fault}
    (hv : value fuel room s = .error fault) : items (fuel + 1) room s = .error fault := by
  rw [items, hv]
  rfl

/-- What follows the first entry: the brace, or a comma and the other entries. -/
theorem members_close {fuel room : Nat} {s close rest : List Char} {k : String} {v : Json}
    (hclose : AreBlanks close) (hv : value fuel room s = .ok (v, close ++ '\x7d' :: rest)) :
    members (fuel + 1) room (quoted k ++ ':' :: s) = .ok ([(k, v)], rest) := by
  rw [members, key_quoted]
  simp only [bind, Except.bind, colon_cons, hv, skipBlanks_append hclose,
    @skipBlanks_cons '\x7d' (by decide)]

theorem members_comma {fuel room : Nat} {s rest : List Char} {k : String} {v : Json}
    (hv : value fuel room s = .ok (v, ',' :: rest)) :
    members (fuel + 1) room (quoted k ++ ':' :: s) =
      (members fuel room rest).map fun (es, rest) => ((k, v) :: es, rest) := by
  rw [members, key_quoted]
  simp only [bind, Except.bind, colon_cons, hv, @skipBlanks_cons ',' (by decide)]
  cases members fuel room rest <;> rfl

theorem members_error {fuel room : Nat} {s : List Char} {k : String} {fault : Fault}
    (hv : value fuel room s = .error fault) :
    members (fuel + 1) room (quoted k ++ ':' :: s) = .error fault := by
  rw [members, key_quoted]
  simp only [bind, Except.bind, colon_cons, hv]

/-! ## Documents that were written -/

variable {spacing : Spacing}

/-- A comma, or what closes a bracket, ends a number. -/
theorem endsNumber_comma (rest : List Char) : EndsNumber (',' :: rest) := by
  rintro c ⟨⟩
  decide

/-- One level of nesting takes one from the room. -/
theorem nested_room {α : Type} (depth room : Nat) (found : α) (rest : List Char)
    (make : α → Json) :
    (if room = 0 then .error .malformed
      else (if depth ≤ room - 1 then (.ok (found, rest) : Except Fault (α × List Char))
        else .error .malformed).map fun (found, rest) => (make found, rest)) =
      if depth + 1 ≤ room then .ok (make found, rest) else .error .malformed := by
  cases room with
  | zero => rw [if_pos rfl, if_neg (Nat.not_succ_le_zero depth)]
  | succ room =>
    rw [if_neg (Nat.succ_ne_zero room), Nat.add_one_sub_one]
    by_cases h : depth ≤ room
    · rw [if_pos h, if_pos (Nat.succ_le_succ h)]
      rfl
    · rw [if_neg h, if_neg fun h' => h (Nat.le_of_succ_le_succ h')]
      rfl

mutual

/-- A written document is read back if it is not nested too deep, and refused if it is. -/
theorem value_write (hspacing : spacing.Blank) : (v : Json) → (level fuel room : Nat) →
    (rest : List Char) → v.WellFormed → 2 * (v.write spacing level).length ≤ fuel →
    EndsNumber rest → value fuel room (v.write spacing level ++ rest) =
      if v.depth ≤ room then .ok (v, rest) else .error .malformed
  | .null, level, fuel + 1, room, rest, _, _, _ => rfl
  | .bool true, level, fuel + 1, room, rest, _, _, _ => rfl
  | .bool false, level, fuel + 1, room, rest, _, _, _ => rfl
  | .number n, level, fuel + 1, room, rest, _, _, hrest => by
    obtain ⟨sp, htext, -⟩ := Number.exists_spelling n
    obtain ⟨c, s, hsp, hc⟩ := head?_text sp
    have hnumber := Number.number_text n hrest
    rw [← htext, hsp, List.cons_append] at hnumber
    have hdepth : depth (.number n) ≤ room := Nat.zero_le room
    rw [write, ← htext, hsp, List.cons_append, value_number hc, hnumber, if_pos hdepth]
    rfl
  | .string s, level, fuel + 1, room, rest, _, _, _ => by
    have hstring := string_append s rest
    have hdepth : depth (.string s) ≤ room := Nat.zero_le room
    rw [write, quoted, List.cons_append, List.append_assoc, List.singleton_append, value,
      skipBlanks_cons (by decide), if_pos hdepth]
    simp only [hstring, bind, Except.bind]
  | .array [], level, fuel + 1, room, rest, _, _, _ => by
    cases room <;> rfl
  | .array (v :: vs), level, fuel + 1, room, rest, hv, hfuel, _ => by
    have hlength := length_bracketed_cons spacing level '[' ']'
      (write spacing (level + 1) v) (writeItems spacing (level + 1) vs)
    rw [write, writeItems] at hfuel
    have hitems := items_write hspacing (v :: vs) (level + 1) fuel (room - 1)
      (spacing.lineBreak level) rest (List.cons_ne_nil v vs) (by rwa [WellFormed] at hv)
      (by rw [writeItems]; omega) (hspacing.lineBreak level)
      (endsNumber_close hspacing level (by decide) rest)
    obtain ⟨c, s, hs, hblank, hc⟩ := head?_write spacing (level + 1) v
    rw [writeItems, hs] at hitems
    obtain ⟨s, hs'⟩ := head?_intercalate (',' :: spacing.lineBreak (level + 1)) c s
      (writeItems spacing (level + 1) vs)
    rw [hs', List.cons_append] at hitems
    rw [write, writeItems, bracketed_cons, hs, hs', List.cons_append,
      value_bracket (hspacing.lineBreak (level + 1)) hblank hc, hitems, depth]
    exact nested_room _ _ _ _ _
  | .object [], level, fuel + 1, room, rest, _, _, _ => by
    cases room <;> rfl
  | .object (e :: es), level, fuel + 1, room, rest, hv, hfuel, _ => by
    obtain ⟨k, v⟩ := e
    have hlength := length_bracketed_cons spacing level '\x7b' '\x7d'
      (quoted k ++ ':' :: spacing.afterColon ++ write spacing (level + 1) v)
      (writeFields spacing (level + 1) es)
    rw [write, writeFields] at hfuel
    rw [WellFormed] at hv
    have hmembers := members_write hspacing ((k, v) :: es) (level + 1) fuel (room - 1)
      (spacing.lineBreak level) rest (List.cons_ne_nil _ es) hv.2 (by rw [writeFields]; omega)
      (hspacing.lineBreak level) (endsNumber_close hspacing level (by decide) rest)
    rw [writeFields, quoted, List.cons_append, List.cons_append] at hmembers
    obtain ⟨s, hs⟩ := head?_intercalate (',' :: spacing.lineBreak (level + 1)) '"'
      (k.toList.flatMap escape ++ ['"'] ++ ':' :: spacing.afterColon ++ write spacing (level + 1) v)
      (writeFields spacing (level + 1) es)
    rw [hs, List.cons_append] at hmembers
    rw [write, writeFields, bracketed_cons, quoted, List.cons_append, List.cons_append, hs,
      List.cons_append, value_brace (hspacing.lineBreak (level + 1)) (by decide) (by decide),
      hmembers, depth]
    have hnested := nested_room (depthFields ((k, v) :: es)) room ((k, v) :: es) rest
      fun found => .object (Entries.ofList found)
    rwa [Entries.ofList_of_nodup hv.1] at hnested
  | v, level, 0, _, _, _, hfuel, _ => by
    obtain ⟨c, s, hs, -⟩ := head?_write spacing level v
    rw [hs] at hfuel
    exact absurd hfuel (by simp)

/-- The items of an array are read back up to its bracket. -/
theorem items_write (hspacing : spacing.Blank) : (vs : List Json) →
    (level fuel room : Nat) → (close rest : List Char) → vs ≠ [] → WellFormedItems vs →
    2 * ((',' :: spacing.lineBreak level).intercalate (writeItems spacing level vs)).length < fuel →
    AreBlanks close → EndsNumber (close ++ ']' :: rest) →
    items fuel room ((',' :: spacing.lineBreak level).intercalate
      (writeItems spacing level vs) ++ (close ++ ']' :: rest)) =
        if depthItems vs ≤ room then .ok (vs, rest) else .error .malformed
  | [], _, _, _, _, _, hne, _, _, _, _ => absurd rfl hne
  | [v], level, fuel + 1, room, close, rest, _, hv, hfuel, hclose, hends => by
    simp only [writeItems, List.intercalate_singleton] at hfuel ⊢
    have hvalue := value_write hspacing v level fuel room (close ++ ']' :: rest) hv.1 (by omega) hends
    have hdepth : depthItems [v] = v.depth := Nat.max_zero _
    rw [hdepth]
    split at hvalue
    · rw [items_close hclose hvalue, if_pos ‹_›]
    · rw [items_error hvalue, if_neg ‹_›]
  | v :: w :: vs, level, fuel + 1, room, close, rest, _, hv, hfuel, hclose, hends => by
    have hitems := items_write hspacing (w :: vs) level fuel room close rest (List.cons_ne_nil w vs)
      hv.2
    simp only [writeItems, List.intercalate_cons_cons, List.append_assoc, List.cons_append,
      List.length_append, List.length_cons] at hfuel hitems ⊢
    have hvalue := value_write hspacing v level fuel room (',' :: (spacing.lineBreak level ++
      ((',' :: spacing.lineBreak level).intercalate (write spacing level w ::
        writeItems spacing level vs) ++ (close ++ ']' :: rest)))) hv.1 (by omega) (endsNumber_comma _)
    have hdepth : depthItems (v :: w :: vs) ≤ room ↔ v.depth ≤ room ∧ depthItems (w :: vs) ≤ room :=
      Nat.max_le
    rw [if_congr hdepth rfl rfl]
    by_cases hdepth : v.depth ≤ room
    · rw [if_pos hdepth] at hvalue
      rw [items_comma hvalue, items_blanks (hspacing.lineBreak level),
        hitems (by omega) hclose hends]
      simp only [hdepth, true_and]
      split <;> rfl
    · rw [if_neg hdepth] at hvalue
      rw [items_error hvalue, if_neg fun h => hdepth h.1]

/-- The entries of an object are read back up to its brace. -/
theorem members_write (hspacing : spacing.Blank) : (es : List (String × Json)) →
    (level fuel room : Nat) → (close rest : List Char) → es ≠ [] → WellFormedFields es →
    2 * ((',' :: spacing.lineBreak level).intercalate (writeFields spacing level es)).length < fuel →
    AreBlanks close → EndsNumber (close ++ '\x7d' :: rest) →
    members fuel room ((',' :: spacing.lineBreak level).intercalate
      (writeFields spacing level es) ++ (close ++ '\x7d' :: rest)) =
        if depthFields es ≤ room then .ok (es, rest) else .error .malformed
  | [], _, _, _, _, _, hne, _, _, _, _ => absurd rfl hne
  | [(k, v)], level, fuel + 1, room, close, rest, _, hv, hfuel, hclose, hends => by
    simp only [writeFields, List.intercalate_singleton, List.append_assoc, List.cons_append,
      List.length_append, List.length_cons] at hfuel ⊢
    have hvalue := value_write hspacing v level fuel room (close ++ '\x7d' :: rest) hv.1 (by omega)
      hends
    rw [← value_blanks hspacing.afterColon] at hvalue
    have hdepth : depthFields [(k, v)] = v.depth := Nat.max_zero _
    rw [hdepth]
    split at hvalue
    · rw [members_close hclose hvalue, if_pos ‹_›]
    · rw [members_error hvalue, if_neg ‹_›]
  | (k, v) :: e :: es, level, fuel + 1, room, close, rest, _, hv, hfuel, hclose, hends => by
    have hmembers := members_write hspacing (e :: es) level fuel room close rest
      (List.cons_ne_nil e es) hv.2
    obtain ⟨l, w⟩ := e
    simp only [writeFields, List.intercalate_cons_cons, List.append_assoc, List.cons_append,
      List.length_append, List.length_cons] at hfuel hmembers ⊢
    have hvalue := value_write hspacing v level fuel room (',' :: (spacing.lineBreak level ++
      ((',' :: spacing.lineBreak level).intercalate
        ((quoted l ++ ':' :: (spacing.afterColon ++ write spacing level w)) ::
          writeFields spacing level es) ++ (close ++ '\x7d' :: rest)))) hv.1 (by omega)
      (endsNumber_comma _)
    rw [← value_blanks hspacing.afterColon] at hvalue
    have hdepth : depthFields ((k, v) :: (l, w) :: es) ≤ room ↔
        v.depth ≤ room ∧ depthFields ((l, w) :: es) ≤ room := Nat.max_le
    rw [if_congr hdepth rfl rfl]
    by_cases hdepth : v.depth ≤ room
    · rw [if_pos hdepth] at hvalue
      rw [members_comma hvalue, members_blanks (hspacing.lineBreak level),
        hmembers (by omega) hclose hends]
      simp only [hdepth, true_and]
      split <;> rfl
    · rw [if_neg hdepth] at hvalue
      rw [members_error hvalue, if_neg fun h => hdepth h.1]

end

end Reader

/-! ## Whole texts -/

/-- A written document, with blanks behind it, is read back if it is not nested too deep, and
refused if it is. -/
theorem readChars_write {spacing : Spacing} (hspacing : spacing.Blank) {v : Json}
    (hv : v.WellFormed) {rest : List Char} (hrest : AreBlanks rest) :
    readChars (v.write spacing 0 ++ rest) =
      if v.depth ≤ Reader.maxDepth then .ok v else .error .malformed := by
  have hends : EndsNumber rest :=
    fun c hc => endsNumber_blank (hrest c (List.mem_of_mem_head? hc))
  have hblank : Reader.skipBlanks rest = [] := by
    rw [← List.append_nil rest, Reader.skipBlanks_append hrest]
    rfl
  have hfuel : 2 * (v.write spacing 0).length ≤ Reader.fuelFor (v.write spacing 0 ++ rest) := by
    rw [Reader.fuelFor, List.length_append]
    omega
  rw [readChars, Reader.document,
    Reader.value_write hspacing v 0 _ Reader.maxDepth rest hv hfuel hends]
  split
  · exact if_pos hblank
  · rfl

theorem read_indented {v : Json} (hv : v.WellFormed) : read (v.indented ++ "\n") =
    if v.depth ≤ Reader.maxDepth then .ok v else .error .malformed := by
  have hline : AreBlanks "\n".toList := by
    intro c hc
    rw [List.mem_singleton.mp hc]
    rfl
  rw [read, indented, String.toList_append, String.toList_ofList]
  exact readChars_write Spacing.lines_blank hv hline

theorem read_compact {v : Json} (hv : v.WellFormed) : read v.compact =
    if v.depth ≤ Reader.maxDepth then .ok v else .error .malformed := by
  have hread := readChars_write Spacing.none_blank hv fun _ hc => absurd hc List.not_mem_nil
  rw [List.append_nil] at hread
  rw [read, compact, String.toList_ofList, hread]

end JsonCollections.Json
