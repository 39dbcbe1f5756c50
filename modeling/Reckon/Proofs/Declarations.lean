-- SUMMARY: Inline style text gives back the declarations that it was written from, and the map of them is listed in host order.
import Reckon.Value.Binding
import Reckon.Proofs.HostOrder

/-!
# Style declarations

Inline style text consists of segments with semicolons between them. A segment
declares the value of a property, with any white space around the two, or it
declares nothing: it has no colon, or nothing but white space before the first
one. Whatever the segments are, reading their text gives the declarations back
in order. In the map of declarations a property has the value that was declared
last, and stands where the host lists a key that was written first when the
property was first declared.
-/

namespace Reckon

/-! ## White space and separators -/

namespace Text

/-- Nothing but white space. -/
def IsWhite (t : Text) : Prop := ∀ u ∈ t.units, isBlank u = true

/-- No white space at either end. -/
structure IsTrimmed (t : Text) : Prop where
  head : ∀ u ∈ t.units.head?, isBlank u = false
  last : ∀ u ∈ t.units.getLast?, isBlank u = false

theorem dropWhile_of_all {p : UInt16 → Bool} {us : List UInt16} (h : ∀ u ∈ us, p u = true) :
    us.dropWhile p = [] := by
  rw [← List.append_nil us, List.dropWhile_append_of_pos h, List.dropWhile_nil]

theorem trim_of_isWhite {t : Text} (h : t.IsWhite) : t.trim = empty := by
  have hdrop : t.units.dropWhile isBlank = [] := dropWhile_of_all h
  simp only [trim, trimWhere, hdrop]
  rfl

/-- White space around a text is cut off, and no more. -/
theorem trim_padded {before t after : Text} (hbefore : before.IsWhite) (ht : t.IsTrimmed)
    (hafter : after.IsWhite) : (before ++ t ++ after).trim = t := by
  obtain ⟨us⟩ := t
  rcases List.eq_nil_or_concat us with rfl | ⟨init, last, hus⟩
  · apply trim_of_isWhite
    intro u hu
    simp only [units_append, List.append_nil, List.mem_append] at hu
    exact hu.elim (hbefore u) (hafter u)
  · rw [List.concat_eq_append] at hus
    subst hus
    have hhead : ((init ++ [last]) ++ after.units).dropWhile isBlank =
        (init ++ [last]) ++ after.units := by
      cases init with
      | nil => exact List.dropWhile_cons_of_neg (by simp [ht.head last rfl])
      | cons u init => exact List.dropWhile_cons_of_neg (by simp [ht.head u rfl])
    have hlast : isBlank last = false := ht.last last (by simp)
    have hreverse : ∀ u ∈ after.units.reverse, isBlank u = true :=
      fun u hu => hafter u (List.mem_reverse.1 hu)
    simp only [trim, trimWhere, units_append]
    rw [List.append_assoc, List.dropWhile_append_of_pos hbefore, hhead, List.reverse_append,
      List.dropWhile_append_of_pos hreverse, List.reverse_append, List.reverse_singleton,
      List.singleton_append, List.dropWhile_cons_of_neg (by simp [hlast]), List.reverse_cons,
      List.reverse_reverse]

theorem not_mem_of_isWhite {t : Text} (h : t.IsWhite) {u : UInt16} (hu : isBlank u = false) :
    u ∉ t.units := by
  intro hmem
  rw [h u hmem] at hu
  cases hu

end Text

/-! ## Segments -/

/-- The name of a property that a style map can hold. -/
structure PropertyName where
  text : Text
  ne_empty : text ≠ Text.empty
  trimmed : text.IsTrimmed
  no_colon : Text.unit ':' ∉ text.units
  no_semicolon : Text.unit ';' ∉ text.units
  not_reserved : text ≠ Value.reservedProperty

/-- The value of a property. It may have colons. -/
structure PropertyValue where
  text : Text
  trimmed : text.IsTrimmed
  no_semicolon : Text.unit ';' ∉ text.units

/-- A text of white space only, and possibly empty. -/
structure WhiteSpace where
  text : Text
  isWhite : text.IsWhite

/-- What stands between two semicolons of inline style text. -/
inductive StyleSegment where
  | declaration (property : PropertyName) (value : PropertyValue)
      (before after before' after' : WhiteSpace)
  | bare (text : Text) (no_semicolon : Text.unit ';' ∉ text.units)
      (no_colon : Text.unit ':' ∉ text.units)
  | nameless (space : WhiteSpace) (rest : Text) (no_semicolon : Text.unit ';' ∉ rest.units)

namespace StyleSegment

def text : StyleSegment → Text
  | .declaration property value before after before' after' =>
    before.text ++ property.text ++ after.text ++ ":" ++
      (before'.text ++ value.text ++ after'.text)
  | .bare text _ _ => text
  | .nameless space rest _ => space.text ++ ":" ++ rest

/-- The declaration that the segment was written from, if any. -/
def declared? : StyleSegment → Option (Text × Text)
  | .declaration property value .. => some (property.text, value.text)
  | .bare .. => none
  | .nameless .. => none

theorem semicolon_not_mem_text (s : StyleSegment) : Text.unit ';' ∉ s.text.units := by
  have hwhite : ∀ w : WhiteSpace, Text.unit ';' ∉ w.text.units :=
    fun w => Text.not_mem_of_isWhite w.isWhite (by decide)
  have hcolon : Text.unit ';' ∉ (Text.ofString ":").units := by decide
  cases s with
  | declaration property value before after before' after' =>
    simp only [text, Text.units_append, List.mem_append, not_or]
    exact ⟨⟨⟨⟨hwhite before, property.no_semicolon⟩, hwhite after⟩, hcolon⟩,
      ⟨hwhite before', value.no_semicolon⟩, hwhite after'⟩
  | bare text no_semicolon _ => exact no_semicolon
  | nameless space rest no_semicolon =>
    simp only [text, Text.units_append, List.mem_append, not_or]
    exact ⟨⟨hwhite space, hcolon⟩, no_semicolon⟩

end StyleSegment

namespace Value

/-- The first colon divides a segment. -/
theorem declaration?_colon {t : Text} (h : Text.unit ':' ∉ t.units) (rest : Text) :
    declaration? (t ++ ":" ++ rest) =
      if t.trim.isEmpty then none else some (t.trim, rest.trim) := by
  have hpass : ∀ u ∈ t.units, decide (u ≠ Text.unit ':') = true := by
    intro u hu
    exact decide_eq_true fun heq => h (heq ▸ hu)
  have hunits : (t ++ ":" ++ rest).units = t.units ++ Text.unit ':' :: rest.units := by
    rw [Text.units_append, Text.units_append, List.append_assoc]
    rfl
  have htake : (t ++ ":" ++ rest).units.takeWhile (fun u => decide (u ≠ Text.unit ':')) =
      t.units := by
    rw [hunits, List.takeWhile_append_of_pos hpass, List.takeWhile_cons_of_neg (by simp),
      List.append_nil]
  have hdrop : (t ++ ":" ++ rest).units.dropWhile (fun u => decide (u ≠ Text.unit ':')) =
      Text.unit ':' :: rest.units := by
    rw [hunits, List.dropWhile_append_of_pos hpass, List.dropWhile_cons_of_neg (by simp)]
  simp only [declaration?, htake, hdrop]

/-- A segment is read as the declaration that it was written from. -/
theorem declaration?_text (s : StyleSegment) : declaration? s.text = s.declared? := by
  have hwhite : ∀ w : WhiteSpace, Text.unit ':' ∉ w.text.units :=
    fun w => Text.not_mem_of_isWhite w.isWhite (by decide)
  cases s with
  | declaration property value before after before' after' =>
    have hcolon : Text.unit ':' ∉ (before.text ++ property.text ++ after.text).units := by
      simp only [Text.units_append, List.mem_append, not_or]
      exact ⟨⟨hwhite before, property.no_colon⟩, hwhite after⟩
    have hname : property.text.isEmpty = false := by
      rw [Bool.eq_false_iff]
      intro hempty
      exact property.ne_empty (congrArg Text.mk (List.isEmpty_iff.1 hempty))
    rw [StyleSegment.text, declaration?_colon hcolon,
      Text.trim_padded before.isWhite property.trimmed after.isWhite,
      Text.trim_padded before'.isWhite value.trimmed after'.isWhite, hname]
    rfl
  | bare text _ no_colon =>
    have hdrop : text.units.dropWhile (fun u => decide (u ≠ Text.unit ':')) = [] := by
      refine Text.dropWhile_of_all fun u hu => ?_
      exact decide_eq_true fun heq => no_colon (heq ▸ hu)
    simp only [StyleSegment.text, declaration?, hdrop]
    rfl
  | nameless space rest =>
    rw [StyleSegment.text, declaration?_colon (hwhite space), Text.trim_of_isWhite space.isWhite]
    rfl

/-- The text of segments is read as their declarations in order. -/
theorem inlineDeclarations_join (segments : List StyleSegment) :
    inlineDeclarations (Text.join ";" (segments.map StyleSegment.text)) =
      segments.filterMap StyleSegment.declared? := by
  have hread : (segments.map StyleSegment.text).filterMap declaration? =
      segments.filterMap StyleSegment.declared? := by
    rw [List.filterMap_map]
    exact congrArg (segments.filterMap ·) (funext declaration?_text)
  rw [inlineDeclarations, ← hread]
  cases segments with
  | nil => rfl
  | cons s segments =>
    have hne : (s :: segments).map StyleSegment.text ≠ [] := List.cons_ne_nil _ _
    have hsegments : ∀ t ∈ (s :: segments).map StyleSegment.text,
        Text.unit ';' ∉ t.units := by
      intro t ht
      obtain ⟨s', -, rfl⟩ := List.mem_map.1 ht
      exact s'.semicolon_not_mem_text
    exact congrArg (List.filterMap declaration?) (Text.split_join rfl hne hsegments)

end Value

/-! ## Maps of declarations -/

namespace Entries

variable {α : Type}

theorem ofList_concat (pairs : List (Text × α)) (pair : Text × α) :
    ofList (pairs ++ [pair]) = insert (ofList pairs) pair.1 pair.2 :=
  List.foldl_append

/-- The pair that was written last counts. -/
theorem get?_ofList (pairs : List (Text × α)) (key : Text) :
    get? (ofList pairs) key = get? pairs.reverse key := by
  rw [← List.reverse_reverse pairs]
  generalize pairs.reverse = latest
  rw [List.reverse_reverse]
  induction latest with
  | nil => rfl
  | cons pair latest ih =>
    rw [List.reverse_cons, ofList_concat, get?_insert, ih]
    rfl

/-- Keys stand in the order in which they were first written. -/
theorem keys_ofList (pairs : List (Text × α)) : keys (ofList pairs) = (keys pairs).eraseDups := by
  rw [← List.reverse_reverse pairs]
  generalize pairs.reverse = latest
  induction latest with
  | nil => rfl
  | cons pair latest ih =>
    have hmem : pair.1 ∈ keys (ofList latest.reverse) ↔ pair.1 ∈ keys latest.reverse := by
      rw [ih, List.mem_eraseDups]
    have hkeys : keys (latest.reverse ++ [pair]) = keys latest.reverse ++ [pair.1] :=
      keys_append _ _
    rw [List.reverse_cons, ofList_concat, hkeys, eraseDups_concat, ← ih]
    split
    next hold => exact keys_insert_of_mem (hmem.2 hold) _
    next hnew => exact keys_insert_of_not_mem (fun h => hnew (hmem.1 h)) _

theorem get?_indexFirst {es : Entries α} (h : (keys es).Nodup) (key : Text) :
    get? (indexFirst es) key = get? es key := by
  have hperm := perm_indexFirst es
  have hnodup := (inHostOrder_indexFirst h).nodup
  cases hget : get? es key with
  | some value => exact get?_of_mem hnodup (hperm.mem_iff.2 (mem_of_get? hget))
  | none =>
    cases hother : get? (indexFirst es) key with
    | none => rfl
    | some value =>
      have hfound := get?_of_mem h (hperm.mem_iff.1 (mem_of_get? hother))
      rw [hget] at hfound
      cases hfound

end Entries

/-- The map gives each property the value that was declared last, and lists the properties
    as the host does: those that are indexes in ascending order, and then the others in
    the order in which they were first declared. -/
structure IsStyleOf (declarations : List (Text × Text)) (style : Entries Text) : Prop where
  value : ∀ property, Entries.get? style property = Entries.get? declarations.reverse property
  listed : Text.HostLists (Entries.keys declarations).eraseDups (Entries.keys style)

namespace Value

theorem isStyleOf_ofHost (declarations : List (Text × Text)) :
    IsStyleOf declarations (Entries.ofHost declarations) := by
  have hnodup := Entries.nodup_keys_ofList declarations
  refine ⟨fun property => ?_, ?_⟩
  · rw [Entries.ofHost, Entries.get?_indexFirst hnodup, Entries.get?_ofList]
  · have hlists := Entries.hostLists_ofHost hnodup
    rwa [Entries.ofHost, Entries.ofList_of_nodup hnodup, Entries.keys_ofList] at hlists

/-- Inline style text is read as the map of the declarations that it was written from,
    whatever white space and idle segments it has. -/
theorem toStyle_segments (segments : List StyleSegment) :
    IsStyleOf (segments.filterMap StyleSegment.declared?)
      (toStyle (.string (Text.join ";" (segments.map StyleSegment.text)))) := by
  have hkept : (segments.filterMap StyleSegment.declared?).filter
      (fun d => d.1 ≠ reservedProperty) = segments.filterMap StyleSegment.declared? := by
    rw [List.filter_eq_self]
    intro d hd
    obtain ⟨s, -, hs⟩ := List.mem_filterMap.1 hd
    cases s with
    | declaration property value =>
      cases hs
      exact decide_eq_true property.not_reserved
    | bare => cases hs
    | nameless => cases hs
  have hstyle : toStyle (.string (Text.join ";" (segments.map StyleSegment.text))) =
      Entries.ofHost (segments.filterMap StyleSegment.declared?) := by
    rw [toStyle, inlineDeclarations_join]
    exact congrArg Entries.ofHost hkept
  rw [hstyle]
  exact isStyleOf_ofHost _

example : toStyle (.string " b : 1;2:x;; bogus; :c;a: y:z ;b:3") =
    [(("2", "x") : Text × Text), ("b", "3"), ("a", "y:z")] := by decide +kernel

end Value

end Reckon
