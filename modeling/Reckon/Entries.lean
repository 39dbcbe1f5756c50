-- SUMMARY: Maps keyed by text that remember the order of insertion, and the order that puts index keys first.
import Reckon.Text

/-!
# Entries

A map from texts is a list of entries. Looking a key up finds the first entry
that has it; writing a key that is present keeps its place, and writing a new
one appends it. A map that is built by writing has every key once.

Host objects enumerate their keys in an order of their own: keys that are array
indexes come first, in ascending order, and the others as they were inserted.
-/

namespace Reckon

/-- In the order of first occurrence, what has come before changes nothing, and what is new
    comes last. -/
theorem eraseDups_concat {α : Type} [BEq α] [LawfulBEq α] (as : List α) (a : α) :
    (as ++ [a]).eraseDups = if a ∈ as then as.eraseDups else as.eraseDups ++ [a] := by
  rw [List.eraseDups_append]
  split
  next hold => simp [List.removeAll, hold]
  next hnew => simp [List.removeAll, hnew, List.eraseDups_cons]

/-- A map from texts in insertion order. -/
abbrev Entries (α : Type) := List (Text × α)

namespace Entries

variable {α β : Type}

/-- The value of the first entry with the key. -/
def get? (es : Entries α) (key : Text) : Option α :=
  match es with
  | [] => none
  | (k, v) :: rest => if k = key then some v else get? rest key

def contains (es : Entries α) (key : Text) : Bool := (get? es key).isSome

/-- Writes a value: in the place of the key's first entry, or behind all others. -/
def insert (es : Entries α) (key : Text) (value : α) : Entries α :=
  match es with
  | [] => [(key, value)]
  | (k, v) :: rest => if k = key then (k, value) :: rest else (k, v) :: insert rest key value

/-- Removes the first entry with the key. -/
def erase (es : Entries α) (key : Text) : Entries α :=
  match es with
  | [] => []
  | (k, v) :: rest => if k = key then rest else (k, v) :: erase rest key

theorem get?_insert (es : Entries α) (key : Text) (value : α) (name : Text) :
    get? (insert es key value) name = if key = name then some value else get? es name := by
  induction es with
  | nil => rfl
  | cons e es ih =>
    obtain ⟨k, v⟩ := e
    simp only [insert, get?]
    by_cases hkey : k = key
    · rw [if_pos hkey, get?, hkey]
      split <;> rfl
    · rw [if_neg hkey, get?, ih]
      by_cases hname : k = name
      · rw [if_pos hname, if_neg fun h => hkey (hname.trans h.symm), if_pos hname]
      · rw [if_neg hname, if_neg hname]

theorem get?_erase_of_ne (es : Entries α) {key name : Text} (h : key ≠ name) :
    get? (erase es key) name = get? es name := by
  induction es with
  | nil => rfl
  | cons e es ih =>
    obtain ⟨k, v⟩ := e
    simp only [erase, get?]
    by_cases hkey : k = key
    · rw [if_pos hkey, if_neg fun hname => h (hkey.symm.trans hname)]
    · rw [if_neg hkey, get?, ih]

theorem mem_of_get? {es : Entries α} {key : Text} {value : α} (h : get? es key = some value) :
    (key, value) ∈ es := by
  induction es with
  | nil => cases h
  | cons e es ih =>
    obtain ⟨k, v⟩ := e
    simp only [get?] at h
    split at h
    next hkey =>
      cases h
      exact hkey ▸ List.mem_cons_self
    next => exact List.mem_cons_of_mem _ (ih h)

theorem mem_of_mem_erase {es : Entries α} {key : Text} {e : Text × α} (h : e ∈ erase es key) :
    e ∈ es := by
  induction es with
  | nil => exact h
  | cons e' es ih =>
    simp only [erase] at h
    split at h
    · exact List.mem_cons_of_mem _ h
    · rcases List.mem_cons.1 h with rfl | h
      · exact List.mem_cons_self
      · exact List.mem_cons_of_mem _ (ih h)

theorem mem_of_mem_insert {es : Entries α} {key : Text} {value : α} {e : Text × α}
    (h : e ∈ insert es key value) : e ∈ es ∨ e = (key, value) := by
  induction es with
  | nil => exact .inr (List.mem_singleton.1 h)
  | cons e' es ih =>
    simp only [insert] at h
    split at h
    next hkey =>
      rcases List.mem_cons.1 h with rfl | h
      · exact .inr (hkey ▸ rfl)
      · exact .inl (List.mem_cons_of_mem _ h)
    next =>
      rcases List.mem_cons.1 h with rfl | h
      · exact .inl List.mem_cons_self
      · exact (ih h).imp_left (List.mem_cons_of_mem _)

def keys (es : Entries α) : List Text := es.map Prod.fst

theorem get?_of_not_mem_keys {es : Entries α} {name : Text} (h : name ∉ keys es) :
    get? es name = none := by
  cases hget : get? es name with
  | none => rfl
  | some value => exact absurd (List.mem_map_of_mem (mem_of_get? hget)) h

/-- Where every key stands once, each entry is found by its key. -/
theorem get?_of_mem {es : Entries α} (hnodup : (keys es).Nodup) {key : Text} {value : α}
    (h : (key, value) ∈ es) : get? es key = some value := by
  induction es with
  | nil => cases h
  | cons e es ih =>
    obtain ⟨k, v⟩ := e
    obtain ⟨hfirst, hrest⟩ := List.nodup_cons.1 hnodup
    rcases List.mem_cons.1 h with heq | hmem
    · cases heq
      exact if_pos rfl
    · have hne : k ≠ key := fun hkey => hfirst (List.mem_map.2 ⟨_, hmem, hkey.symm⟩)
      rw [get?, if_neg hne]
      exact ih hrest hmem

theorem mem_keys_iff {es : Entries α} {key : Text} :
    key ∈ keys es ↔ ∃ value, get? es key = some value := by
  constructor
  · intro hkey
    cases hget : get? es key with
    | some value => exact ⟨value, rfl⟩
    | none =>
      exfalso
      induction es with
      | nil => cases hkey
      | cons e es ih =>
        obtain ⟨k, v⟩ := e
        simp only [get?] at hget
        split at hget
        · cases hget
        next hne =>
          exact ih ((List.mem_cons.1 hkey).resolve_left fun heq => hne heq.symm) hget
  · rintro ⟨value, hget⟩
    exact List.mem_map_of_mem (mem_of_get? hget)

theorem contains_iff_mem_keys {es : Entries α} {key : Text} :
    contains es key = true ↔ key ∈ keys es := by
  rw [mem_keys_iff, contains, Option.isSome_iff_exists]

theorem get?_append (es es' : Entries α) (key : Text) :
    get? (es ++ es') key = (get? es key).or (get? es' key) := by
  induction es with
  | nil => rfl
  | cons e es ih =>
    obtain ⟨k, v⟩ := e
    simp only [List.cons_append, get?]
    split
    · rfl
    · exact ih

theorem keys_append (es es' : Entries α) : keys (es ++ es') = keys es ++ keys es' :=
  List.map_append

theorem keys_drop (es : Entries α) (n : Nat) : keys (es.drop n) = (keys es).drop n :=
  List.map_drop

theorem keys_erase (es : Entries α) (key : Text) : keys (erase es key) = (keys es).erase key := by
  induction es with
  | nil => rfl
  | cons e es ih =>
    obtain ⟨k, v⟩ := e
    by_cases hkey : k = key
    · simp [keys, erase, hkey]
    · simpa [keys, erase, hkey] using ih

theorem keys_insert_of_mem {es : Entries α} {key : Text} (h : key ∈ keys es) (value : α) :
    keys (insert es key value) = keys es := by
  induction es with
  | nil => cases h
  | cons e es ih =>
    obtain ⟨k, v⟩ := e
    by_cases hkey : k = key
    · simp [keys, insert, hkey]
    · have hrest : key ∈ keys es := (List.mem_cons.1 h).resolve_left (Ne.symm hkey)
      simpa [keys, insert, hkey] using ih hrest

/-- Without the first entry, the others are still found. -/
theorem get?_drop_one {es : Entries α} (hnodup : (keys es).Nodup) {key : Text}
    (h : key ∈ keys (es.drop 1)) : get? (es.drop 1) key = get? es key := by
  cases es with
  | nil => rfl
  | cons e es =>
    have hne : e.1 ≠ key := fun heq => (List.nodup_cons.1 hnodup).1 (heq ▸ h)
    exact (if_neg hne).symm

/-- The map that results from writing the pairs in order. -/
def ofList (pairs : List (Text × α)) : Entries α :=
  pairs.foldl (fun es (k, v) => insert es k v) []

/-- Applies `f` to every value. -/
def mapValues (f : α → β) (es : Entries α) : Entries β :=
  es.map fun (k, v) => (k, f v)

theorem keys_mapValues (f : α → β) (es : Entries α) : keys (mapValues f es) = keys es := by
  simp [keys, mapValues]

theorem get?_mapValues (f : α → β) (es : Entries α) (key : Text) :
    get? (mapValues f es) key = (get? es key).map f := by
  induction es with
  | nil => rfl
  | cons e es ih =>
    obtain ⟨k, v⟩ := e
    simp only [mapValues, List.map_cons, get?]
    split
    · rfl
    · exact ih

/-- Writing a value that `f` does not tell from the one before makes no difference to `f`. -/
theorem mapValues_insert_of_get? {f : α → β} {es : Entries α} {key : Text} {value new : α}
    (h : get? es key = some value) (hf : f new = f value) :
    mapValues f (insert es key new) = mapValues f es := by
  induction es with
  | nil => cases h
  | cons e es ih =>
    obtain ⟨k, v⟩ := e
    simp only [get?] at h
    simp only [insert]
    split
    next hkey =>
      rw [if_pos hkey] at h
      cases h
      simp only [mapValues, List.map_cons, hf]
    next hkey =>
      rw [if_neg hkey] at h
      simp only [mapValues, List.map_cons, List.cons.injEq, true_and]
      exact ih h

end Entries

-- ---------------------------------------------------------------------------
-- Index keys first
-- ---------------------------------------------------------------------------

/-- Array indexes are below this: `2^32 - 1`. -/
def indexLimit : Nat := 4294967295

/-- The array index that a key denotes: the decimal text of a number below the
    limit, without leading zeros. -/
def Text.index? (key : Text) : Option Nat :=
  if key.units.all isDigit then
    let n := natOfDigits key.units
    if n < indexLimit ∧ ofNat n = key then some n else none
  else none

namespace Entries

variable {α : Type}

/-- The entries with an index key, in ascending order, and then the others. -/
def indexFirst (es : Entries α) : Entries α :=
  let indexed := es.filterMap fun (k, v) => k.index?.map fun n => (n, k, v)
  let sorted := indexed.mergeSort fun a b => a.1 ≤ b.1
  sorted.map (·.2) ++ es.filter fun (k, _) => k.index?.isNone

/-- The entries of the host object whose properties are defined in the given
    order. -/
def ofHost (pairs : List (Text × α)) : Entries α := indexFirst (ofList pairs)

end Entries

end Reckon
