-- SUMMARY: Upper and lower case of a text by the full Unicode mappings, with the rule for the final sigma.
import Reckon.Text.Point
import Reckon.Text.CaseTable

/-!
# Letter case

The full Unicode mappings, which do not depend on a language: one code point may
map to several. A capital sigma becomes a final sigma where a word ends: behind
a cased character and not before one, with the case-ignorable characters in
between passed over.
-/

namespace Reckon.Text

/-- The image of `p` under the mappings to several code points and then the runs. -/
def mapCase (expansions : List (Nat × List Nat)) (runs : List CaseRun) (p : Nat) : List Nat :=
  match expansions.lookup p with
  | some ps => ps
  | none =>
    match runs.find? (·.contains p) with
    | some r => [(p + r.shift).toNat]
    | none => [p]

def inRanges (ranges : List (Nat × Nat)) (p : Nat) : Bool :=
  ranges.any fun (first, last) => first ≤ p && p ≤ last

/-- Whether the nearest point that is not case-ignorable is cased. -/
def meetsCased (ps : List Nat) : Bool :=
  match ps.dropWhile (inRanges caseIgnorableRanges) with
  | [] => false
  | p :: _ => inRanges casedRanges p

/-- The lower-case form of `p` between the points `before`, nearest first, and
    `after`. -/
def lowerPoint (before : List Nat) (p : Nat) (after : List Nat) : List Nat :=
  if p = 0x3A3 then
    if meetsCased before && !meetsCased after then [0x3C2] else [0x3C3]
  else mapCase lowerExpansions lowerRuns p

/-- The lower-case form of the points that follow the points `before`, nearest
    first. -/
def lowerPoints (before : List Nat) : List Nat → List Nat
  | [] => []
  | p :: after => lowerPoint before p after ++ lowerPoints (p :: before) after

def toUpper (t : Text) : Text :=
  ofPoints (t.points.flatMap (mapCase upperExpansions upperRuns))

def toLower (t : Text) : Text :=
  ofPoints (lowerPoints [] t.points)

end Reckon.Text
