-- SUMMARY: Text as a sequence of UTF-16 code units: literals, order, slices, searching, joining, and the decimal text of whole numbers.

/-!
# Text

Names, keys and string values are sequences of UTF-16 code units. A sequence
need not be well formed: a surrogate may stand alone. Lengths, positions and
the order of two texts all count code units.
-/

namespace Reckon

/-- A piece of text: a sequence of UTF-16 code units, in which a surrogate may
    stand alone. -/
structure Text where
  units : List UInt16
deriving DecidableEq, Inhabited

namespace Text

-- ---------------------------------------------------------------------------
-- Literals
-- ---------------------------------------------------------------------------

/-- The code units of the code point `p`: one below `0x10000`, and a high and a
    low surrogate above. -/
def unitsOfPoint (p : Nat) : List UInt16 :=
  if p < 0x10000 then [p.toUInt16]
  else [(0xD800 + (p - 0x10000) / 0x400).toUInt16, (0xDC00 + (p - 0x10000) % 0x400).toUInt16]

def ofString (s : String) : Text :=
  ⟨s.toList.flatMap fun c => unitsOfPoint c.toNat⟩

instance : Coe String Text := ⟨ofString⟩

def empty : Text := ⟨[]⟩

instance : Append Text := ⟨fun a b => ⟨a.units ++ b.units⟩⟩

@[simp] theorem units_append (a b : Text) : (a ++ b).units = a.units ++ b.units := rfl

def length (t : Text) : Nat := t.units.length

def isEmpty (t : Text) : Bool := t.units.isEmpty

/-- The code unit of an ASCII character. -/
def unit (c : Char) : UInt16 := c.toNat.toUInt16

-- ---------------------------------------------------------------------------
-- Order
-- ---------------------------------------------------------------------------

/-- Texts are ordered by their code units, first difference first. -/
instance : Ord Text := ⟨fun a b => compare a.units b.units⟩

-- ---------------------------------------------------------------------------
-- Parts
-- ---------------------------------------------------------------------------

/-- The code units from position `start` up to, and without, position `stop`. -/
def slice (t : Text) (start stop : Nat) : Text :=
  ⟨(t.units.take stop).drop start⟩

def startsWith (t p : Text) : Bool :=
  p.units.isPrefixOf t.units

/-- The text without the leading and trailing units that satisfy `p`. -/
def trimWhere (p : UInt16 → Bool) (t : Text) : Text :=
  ⟨((t.units.dropWhile p).reverse.dropWhile p).reverse⟩

/-- The text without the trailing units that satisfy `p`. -/
def trimEndWhere (p : UInt16 → Bool) (t : Text) : Text :=
  ⟨(t.units.reverse.dropWhile p).reverse⟩

/-- The parts of `us` between the occurrences of the unit `u`; one part more than
    there are occurrences. -/
def splitUnits (u : UInt16) : List UInt16 → List (List UInt16)
  | [] => [[]]
  | x :: xs =>
    if x = u then [] :: splitUnits u xs
    else match splitUnits u xs with
      | [] => [[x]]
      | part :: parts => (x :: part) :: parts

def split (u : UInt16) (t : Text) : List Text :=
  (splitUnits u t.units).map Text.mk

-- ---------------------------------------------------------------------------
-- Joining and padding
-- ---------------------------------------------------------------------------

/-- The texts in order, with `sep` between any two of them. -/
def join (sep : Text) (ts : List Text) : Text :=
  ⟨(ts.map units).intersperse sep.units |>.flatten⟩

theorem join_singleton (sep t : Text) : join sep [t] = t :=
  congrArg Text.mk (List.append_nil t.units)

theorem join_cons (sep t : Text) {ts : List Text} (h : ts ≠ []) :
    join sep (t :: ts) = t ++ sep ++ join sep ts := by
  cases ts with
  | nil => exact absurd rfl h
  | cons t' ts => exact congrArg Text.mk (List.append_assoc _ _ _).symm

theorem splitUnits_ne_nil (u : UInt16) (us : List UInt16) : splitUnits u us ≠ [] := by
  fun_cases splitUnits u us <;> exact List.cons_ne_nil _ _

theorem splitUnits_append (u : UInt16) (us rest : List UInt16) :
    splitUnits u (us ++ u :: rest) = splitUnits u us ++ splitUnits u rest := by
  induction us with
  | nil => exact if_pos rfl
  | cons x us ih =>
    rw [List.cons_append, splitUnits, splitUnits, ih]
    split
    · rfl
    · cases hparts : splitUnits u us with
      | nil => exact absurd hparts (splitUnits_ne_nil u us)
      | cons part parts => rfl

theorem split_of_not_mem {u : UInt16} {t : Text} (h : u ∉ t.units) : t.split u = [t] := by
  have hunits : ∀ us, u ∉ us → splitUnits u us = [us] := by
    intro us hus
    induction us with
    | nil => rfl
    | cons x us ih =>
      obtain ⟨hne, hrest⟩ : u ≠ x ∧ u ∉ us := by simpa using hus
      rw [splitUnits, if_neg (Ne.symm hne), ih hrest]
  rw [split, hunits t.units h]
  rfl

section

variable {u : UInt16} {sep : Text} (hsep : sep.units = [u])

include hsep

theorem split_append (t t' : Text) : (t ++ sep ++ t').split u = t.split u ++ t'.split u := by
  rw [split, units_append, units_append, hsep, List.append_assoc, List.singleton_append,
    splitUnits_append, List.map_append]
  rfl

/-- Texts that were joined with a unit that none of them has are found again. -/
theorem split_join {ts : List Text} (hne : ts ≠ []) (h : ∀ t ∈ ts, u ∉ t.units) :
    (join sep ts).split u = ts := by
  induction ts with
  | nil => exact absurd rfl hne
  | cons t ts ih =>
    obtain ⟨hfirst, hrest⟩ := List.forall_mem_cons.1 h
    by_cases hts : ts = []
    · rw [hts, join_singleton, split_of_not_mem hfirst]
    · rw [join_cons sep t hts, split_append hsep, split_of_not_mem hfirst, ih hts hrest]
      rfl

end

/-- The text, preceded by as many blanks as `width` units need. -/
def padStart (width : Nat) (t : Text) : Text :=
  ⟨List.replicate (width - t.length) (unit ' ') ++ t.units⟩

/-- The text, followed by as many blanks as `width` units need. -/
def padEnd (width : Nat) (t : Text) : Text :=
  ⟨t.units ++ List.replicate (width - t.length) (unit ' ')⟩

-- ---------------------------------------------------------------------------
-- Whole numbers
-- ---------------------------------------------------------------------------

/-- The decimal digits of `n`, without leading zeros. -/
def ofNat (n : Nat) : Text :=
  ⟨(Nat.toDigits 10 n).map unit⟩

/-- The decimal digits of `n`, after a minus sign if `n` is negative. -/
def ofInt (n : Int) : Text :=
  if n < 0 then "-" ++ ofNat n.natAbs else ofNat n.natAbs

def isDigit (u : UInt16) : Bool :=
  unit '0' ≤ u && u ≤ unit '9'

/-- The value of a sequence of decimal digits. -/
def natOfDigits (us : List UInt16) : Nat :=
  us.foldl (fun n u => 10 * n + (u.toNat - 48)) 0

end Text

end Reckon
