-- SUMMARY: Pools of distinct constants, which instructions refer to by position.
import Reckon.Double

/-!
# Constant pools

A pool holds distinct constants in the order in which they were first added. An
instruction refers to a constant by its position, so that a position once given
out stays what it is. A full pool takes no new constant.
-/

namespace Reckon

/-- A pool of distinct constants with at most `limit` entries. -/
structure Pool (α : Type) where
  limit : Int
  entries : List α := []

namespace Pool

/-- How many entries an instruction can refer to. -/
def capacity : Nat := 65536

variable {α : Type}

/-- The constant at a position. -/
def get? (p : Pool α) (position : Double) : Option α := position.toNat?.bind (p.entries[·]?)

/-- The position of a constant, which is added if it is new; none if the pool is
    full. -/
def add [DecidableEq α] (p : Pool α) (a : α) : Option Nat × Pool α :=
  match p.entries.idxOf? a with
  | some i => (some i, p)
  | none =>
    if p.limit ≤ p.entries.length then (none, p)
    else (some p.entries.length, { p with entries := p.entries ++ [a] })

end Pool

end Reckon
