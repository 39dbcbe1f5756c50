-- SUMMARY: What is inside a value or host data at any depth, and induction over it.
import Reckon.Value.Host

/-!
# Nesting

Values and host data are trees: an array has its items right below it, an object
the values of its entries. What is said of a tree at any depth is said of all
trees inside it, and what follows for a tree from the trees right below it holds
of every tree.
-/

namespace Reckon

/-- The first tree is inside the second, at any depth, where `children` gives the trees
    right below one. -/
inductive Inside {α : Type} (children : α → List α) : α → α → Prop where
  | refl (x : α) : Inside children x x
  | child {x y z : α} (hy : y ∈ children z) (hx : Inside children x y) : Inside children x z

theorem inside_iff {α : Type} {children : α → List α} {x z : α} :
    Inside children x z ↔ x = z ∨ ∃ y ∈ children z, Inside children x y := by
  constructor
  · intro h
    cases h with
    | refl => exact .inl rfl
    | child hy hx => exact .inr ⟨_, hy, hx⟩
  · rintro (rfl | ⟨y, hy, hx⟩)
    · exact .refl x
    · exact .child hy hx

/-- What holds of all trees inside a tree holds of it and of all trees inside the ones right
    below it. -/
theorem forall_inside_iff {α : Type} {children : α → List α} {P : α → Prop} {z : α} :
    (∀ x, Inside children x z → P x) ↔
      P z ∧ ∀ y ∈ children z, ∀ x, Inside children x y → P x := by
  constructor
  · intro h
    exact ⟨h z (.refl z), fun y hy x hx => h x (.child hy hx)⟩
  · rintro ⟨hz, hchildren⟩ x hx
    cases hx with
    | refl => exact hz
    | child hy hx => exact hchildren _ hy x hx

theorem forall_inside_leaf_iff {α : Type} {children : α → List α} {P : α → Prop} {z : α}
    (hz : children z = []) : (∀ x, Inside children x z → P x) ↔ P z := by
  rw [forall_inside_iff, hz]
  simp

theorem sizeOf_snd_lt_of_mem {α : Type} [SizeOf α] {e : Text × α} {es : Entries α}
    (he : e ∈ es) : sizeOf e.2 < sizeOf es := by
  have hlt := List.sizeOf_lt_of_mem he
  obtain ⟨k, x⟩ := e
  simp only [Prod.mk.sizeOf_spec] at hlt ⊢
  omega

namespace Value

/-- The values right below a value. -/
def children : Value → List Value
  | .array items => items
  | .object entries => entries.map (·.2)
  | _ => []

theorem sizeOf_child_lt {v w : Value} (hw : w ∈ v.children) : sizeOf w < sizeOf v := by
  cases v with
  | array items =>
    have hlt : sizeOf w < sizeOf items := List.sizeOf_lt_of_mem hw
    simp only [array.sizeOf_spec]
    omega
  | object entries =>
    obtain ⟨e, he, rfl⟩ := List.mem_map.1 hw
    have hlt := sizeOf_snd_lt_of_mem he
    simp only [object.sizeOf_spec]
    omega
  | _ => cases hw

theorem children_induction {P : Value → Prop}
    (step : ∀ v : Value, (∀ w ∈ v.children, P w) → P v) (v : Value) : P v :=
  step v fun w _ => children_induction step w
termination_by v
decreasing_by exact sizeOf_child_lt ‹_›

end Value

namespace HostData

/-- The data right below host data. -/
def children : HostData → List HostData
  | .array items => items
  | .object properties => properties.map (·.2)
  | _ => []

theorem sizeOf_child_lt {d c : HostData} (hc : c ∈ d.children) : sizeOf c < sizeOf d := by
  cases d with
  | array items =>
    have hlt : sizeOf c < sizeOf items := List.sizeOf_lt_of_mem hc
    simp only [array.sizeOf_spec]
    omega
  | object properties =>
    obtain ⟨e, he, rfl⟩ := List.mem_map.1 hc
    have hlt := sizeOf_snd_lt_of_mem he
    simp only [object.sizeOf_spec]
    omega
  | _ => cases hc

theorem children_induction {P : HostData → Prop}
    (step : ∀ d : HostData, (∀ c ∈ d.children, P c) → P d) (d : HostData) : P d :=
  step d fun c _ => children_induction step c
termination_by d
decreasing_by exact sizeOf_child_lt ‹_›

end HostData

end Reckon
