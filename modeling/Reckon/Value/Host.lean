-- SUMMARY: Plain host data and finite graphs of host containers, and their conversion to values and back.
import Reckon.Value

/-!
# Host data

A host program hands over plain data: scalars, whole numbers of any size,
arrays and objects. An array has an item at each of its positions: arrays with
holes, where the host has no item, are not data here. Containers may be shared
and may contain themselves, so what is handed over is a graph.
`HostGraph.unfold` turns a graph into a tree, in which a reference to a container
that is being unfolded is null and every other reference is unfolded in full.
`HostGraph.convert` makes a value of a graph at once: it marks a container while
it converts what is in it, and a reference to a marked container is null.

Numbers that are exact whole numbers become integers; values give them back as
numbers as long as they are exact.
-/

namespace Reckon

-- ---------------------------------------------------------------------------
-- Trees and graphs
-- ---------------------------------------------------------------------------

/-- Plain host data without sharing. -/
inductive HostData where
  /-- A host value that is not data, such as a function. -/
  | foreign
  | null
  | bool (b : Bool)
  | number (x : Double)
  /-- A whole number of any size. -/
  | whole (n : Int)
  | text (s : Text)
  | array (items : List HostData)
  | object (properties : List (Text × HostData))
deriving Inhabited

/-- A place in a graph: data, or a reference to a container. -/
inductive HostItem where
  | data (d : HostData)
  | container (id : Nat)
deriving Inhabited

/-- A container of a graph. -/
inductive HostContainer where
  | array (items : List HostItem)
  | object (properties : List (Text × HostItem))
deriving Inhabited

/-- A finite graph of containers, which are named by their positions. -/
abbrev HostGraph := List HostContainer

/-- The tree seen from an item. Only the containers in `unopened` are entered: the
    others are being unfolded already, or are not there, and give null. -/
def HostGraph.unfoldFrom (g : HostGraph) (unopened : List Nat) : HostItem → HostData
  | .data d => d
  | .container id =>
    if _h : id ∈ unopened then
      match g[id]? with
      | none => .null
      | some (.array items) =>
        .array (items.map fun item => unfoldFrom g (unopened.erase id) item)
      | some (.object properties) =>
        .object (properties.map fun (k, item) => (k, unfoldFrom g (unopened.erase id) item))
    else .null
termination_by unopened.length
decreasing_by
  all_goals
    rw [List.length_erase_of_mem _h]
    have := List.length_pos_of_mem _h
    omega

/-- The tree seen from an item of the graph. -/
def HostGraph.unfold (g : HostGraph) (root : HostItem) : HostData :=
  g.unfoldFrom (List.range g.length) root

-- ---------------------------------------------------------------------------
-- Conversion
-- ---------------------------------------------------------------------------

mutual

/-- The value of host data. An object lists its entries as the host does. -/
def Value.ofHost : HostData → Value
  | .foreign => .null
  | .null => .null
  | .bool b => .bool b
  | .number x => x.toSafeInt?.elim (.float x) .ofInt
  | .whole n => .ofInt n
  | .text s => .string s
  | .array items => .array (Value.ofHostItems items)
  | .object properties => .object (Entries.ofHost (Value.ofHostProperties properties))

def Value.ofHostItems : List HostData → List Value
  | [] => []
  | d :: ds => Value.ofHost d :: Value.ofHostItems ds

def Value.ofHostProperties : List (Text × HostData) → List (Text × Value)
  | [] => []
  | (k, d) :: ds => (k, Value.ofHost d) :: Value.ofHostProperties ds

end

/-- What the conversion of a part of a graph gives, and the marks that it leaves: those
    that it found. -/
structure HostGraph.Converted (α : Type) (found : List Nat) where
  result : α
  marks : List Nat
  marks_eq : marks = found

namespace HostGraph

variable {α β : Type} {g : HostGraph} {marks : List Nat} {id : Nat}

/-- Takes the mark of a container away behind the conversion of what is in it. -/
def Converted.unmark (inner : Converted α (id :: marks)) (f : α → β) : Converted β marks where
  result := f inner.result
  marks := inner.marks.erase id
  marks_eq := by rw [inner.marks_eq, List.erase_cons_head]

/-- How many containers of the graph have no mark. -/
def unmarked (g : HostGraph) (marks : List Nat) : Nat :=
  ((List.range g.length).filter (· ∉ marks)).length

theorem unmarked_cons_lt {node : HostContainer} (hmarked : id ∉ marks)
    (hnode : g[id]? = some node) : g.unmarked (id :: marks) < g.unmarked marks := by
  have hlt : id < g.length := (List.getElem?_eq_some_iff.1 hnode).1
  have hsplit : (List.range g.length).filter (· ∉ id :: marks) =
      ((List.range g.length).filter (· ∉ marks)).filter (· ≠ id) := by
    rw [List.filter_filter]
    congr 1
    funext id'
    simp
  rw [unmarked, unmarked, hsplit, List.length_filter_lt_length_iff_exists]
  exact ⟨id, by simpa using ⟨hlt, hmarked⟩, by simp⟩

mutual

/-- The value of an item. A container is marked while what is in it is converted; where a
    container is marked, its value is null. -/
def convert (g : HostGraph) (marks : List Nat) : HostItem → Converted Value marks
  | .data d => ⟨.ofHost d, marks, rfl⟩
  | .container id =>
    if _hmarked : id ∈ marks then ⟨.null, marks, rfl⟩
    else match _hnode : g[id]? with
      | none => ⟨.null, marks, rfl⟩
      | some (.array items) => (convertItems g (id :: marks) items).unmark .array
      | some (.object properties) =>
        (convertProperties g (id :: marks) [] (Entries.ofHost properties)).unmark .object
termination_by (g.unmarked marks, 0)
decreasing_by
  all_goals exact Prod.Lex.left _ _ (unmarked_cons_lt _hmarked _hnode)

def convertItems (g : HostGraph) (marks : List Nat) :
    List HostItem → Converted (List Value) marks
  | [] => ⟨[], marks, rfl⟩
  | item :: items =>
    let first := convert g marks item
    let rest := convertItems g first.marks items
    ⟨first.result :: rest.result, rest.marks, rest.marks_eq.trans first.marks_eq⟩
termination_by items => (g.unmarked marks, items.length + 1)
decreasing_by
  · exact Prod.Lex.right _ (Nat.succ_pos _)
  · rw [first.marks_eq]
    exact Prod.Lex.right _ (Nat.lt_succ_self _)

/-- Writes the values of the properties into the entries, one after the other. -/
def convertProperties (g : HostGraph) (marks : List Nat) (entries : Entries Value) :
    List (Text × HostItem) → Converted (Entries Value) marks
  | [] => ⟨entries, marks, rfl⟩
  | (key, item) :: properties =>
    let first := convert g marks item
    let rest := convertProperties g first.marks (Entries.insert entries key first.result) properties
    ⟨rest.result, rest.marks, rest.marks_eq.trans first.marks_eq⟩
termination_by properties => (g.unmarked marks, properties.length + 1)
decreasing_by
  · exact Prod.Lex.right _ (Nat.succ_pos _)
  · rw [first.marks_eq]
    exact Prod.Lex.right _ (Nat.lt_succ_self _)

end

/-- The value of an item of the graph, with no container marked at first. -/
def toValue (g : HostGraph) (root : HostItem) : Value := (g.convert [] root).result

end HostGraph

mutual

/-- The host data of a value. What lacks its data becomes null. -/
def Value.toHost : Value → HostData
  | .null => .null
  | .int n => if (Double.ofInt n).toSafeInt?.isSome then .number (.ofInt n) else .whole n
  | .float x => .number x
  | .bool b => .bool b
  | .string s => .text s
  | .array items => .array (Value.toHostItems items)
  | .object entries => .object (Entries.ofHost (Value.toHostEntries entries))
  | .absent _ => .null

def Value.toHostItems : List Value → List HostData
  | [] => []
  | v :: vs => Value.toHost v :: Value.toHostItems vs

def Value.toHostEntries : List (Text × Value) → List (Text × HostData)
  | [] => []
  | (k, v) :: es => (k, Value.toHost v) :: Value.toHostEntries es

end

end Reckon
