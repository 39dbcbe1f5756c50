-- SUMMARY: The operand stack, with its size at hand.
import Reckon.Value

/-!
# The operand stack

A list of values with the top first, together with its length, so that the
limit can be checked at every push.
-/

namespace Reckon

/-- A stack of values. -/
structure Stack where
  /-- The values, the top first. -/
  items : List Value := []
  size : Nat := 0
  size_eq : size = items.length := by rfl

namespace Stack

theorem ext_items {s t : Stack} (h : s.items = t.items) : s = t := by
  obtain ⟨_, _, hs⟩ := s
  obtain ⟨_, _, ht⟩ := t
  subst hs ht h
  rfl

def empty : Stack := {}

instance : Inhabited Stack := ⟨empty⟩

def push (s : Stack) (v : Value) : Stack :=
  ⟨v :: s.items, s.size + 1, by simp [s.size_eq]⟩

@[simp] theorem items_push (s : Stack) (v : Value) : (s.push v).items = v :: s.items := rfl

/-- The top value and the stack below it. -/
def pop? : Stack → Option (Value × Stack)
  | ⟨[], _, _⟩ => none
  | ⟨v :: items, size, h⟩ => some (v, ⟨items, size - 1, by simp [h]⟩)

@[simp] theorem pop?_push (s : Stack) (v : Value) : (s.push v).pop? = some (v, s) := by
  obtain ⟨items, size, h⟩ := s
  simp [push, pop?]

/-- The stack with its two top values exchanged. -/
def swap? : Stack → Option Stack
  | ⟨a :: b :: items, size, h⟩ => some ⟨b :: a :: items, size, by simpa using h⟩
  | _ => none

end Stack

end Reckon
