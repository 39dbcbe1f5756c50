-- SUMMARY: Host data survives conversion to a value and back, and values survive export and reading back, up to the order of entries.
import Reckon.Proofs.Nesting
import Reckon.Proofs.Unfolding
import Reckon.Proofs.WellFormed
import Reckon.Proofs.WholeNumbers

/-!
# Round trips

A host graph without cycles stands for a tree, however its containers are shared.
Its value gives the tree back if the tree holds only what values can hold: no
foreign values, no negative zero, and whole numbers of 64 bits that could not be
numbers.

The other way round, the host data of a value is read as the value again, if
nothing in it lacks its data and no floating-point number in it could be an
integer. Only the entries of objects come back in another order, which is the one
of the host.
-/

namespace Reckon

/-! ## Trees in a graph -/

namespace HostGraph

variable {g : HostGraph} {path : List Nat} {id : Nat} {root item : HostItem} {d : HostData}

/-- The item stands for the tree: all that is below it is unfolded in full. -/
inductive Denotes (g : HostGraph) : HostItem → HostData → Prop where
  | data (d : HostData) : Denotes g (.data d) d
  | array {id : Nat} {items : List HostItem} {ds : List HostData}
    (hnode : g[id]? = some (.array items)) (hlength : ds.length = items.length)
    (hitems : ∀ (i : Nat) item d, items[i]? = some item → ds[i]? = some d → Denotes g item d) :
    Denotes g (.container id) (.array ds)
  /-- The tree has the properties in the order in which the host object lists them. -/
  | object {id : Nat} {properties : List (Text × HostItem)} {ds : List (Text × HostData)}
    (hnode : g[id]? = some (.object properties))
    (hkeys : Entries.keys ds = Entries.keys (Entries.ofHost properties))
    (hvalues : ∀ key item d, (key, item) ∈ Entries.ofHost properties → (key, d) ∈ ds →
      Denotes g item d) :
    Denotes g (.container id) (.object ds)

theorem Denotes.unique {d' : HostData} (h : g.Denotes item d) (h' : g.Denotes item d') :
    d = d' := by
  induction h generalizing d' with
  | data d =>
    cases h'
    rfl
  | @array id items ds hnode hlength hitems ih =>
    cases h' with
    | object hnode' => simp_all
    | @array _ items' ds' hnode' hlength' hitems' =>
      obtain rfl : items = items' := by simpa using hnode.symm.trans hnode'
      congr 1
      apply ext_items hlength hlength'
      intro i item c c' hitem hc hc'
      exact ih i item c hitem hc (hitems' i item c' hitem hc')
  | @object id properties ds hnode hkeys hvalues ih =>
    cases h' with
    | array hnode' => simp_all
    | @object _ properties' ds' hnode' hkeys' hvalues' =>
      obtain rfl : properties = properties' := by simpa using hnode.symm.trans hnode'
      congr 1
      apply Entries.ext_listing hkeys hkeys'
      intro key item c c' hitem hc hc'
      exact ih key item c hitem hc (hvalues' key item c' hitem hc')

/-- Each container of the path stands for a tree that is larger than `d`. -/
def Above (g : HostGraph) (path : List Nat) (d : HostData) : Prop :=
  ∀ id ∈ path, ∃ d', g.Denotes (.container id) d' ∧ sizeOf d < sizeOf d'

/-- A container stands for one tree only, so it is not above itself. -/
theorem Above.not_mem (habove : g.Above path d) (hd : g.Denotes (.container id) d) :
    id ∉ path := by
  intro hid
  obtain ⟨d', hd', hlt⟩ := habove id hid
  rw [hd'.unique hd] at hlt
  exact Nat.lt_irrefl _ hlt

theorem Above.child (habove : g.Above path d) (hd : g.Denotes (.container id) d)
    {c : HostData} (hc : c ∈ d.children) : g.Above (id :: path) c := by
  have hlt := HostData.sizeOf_child_lt hc
  intro id' hid'
  rcases List.mem_cons.1 hid' with rfl | hid'
  · exact ⟨d, hd, hlt⟩
  · obtain ⟨d', hd', hlt'⟩ := habove id' hid'
    exact ⟨d', hd', Nat.lt_trans hlt hlt'⟩

/-! ## Graphs without cycles -/

/-- Every container below the root is there, and none is inside itself. -/
def Acyclic (g : HostGraph) (root : HostItem) : Prop :=
  ∀ path id, g.Enters root path (.container id) → id ∉ path ∧ id < g.length

/-- What is below an item that stands for a tree stands for a part of the tree. -/
theorem Enters.denotes (h : g.Enters root path item) (hroot : g.Denotes root d) :
    ∃ c, g.Denotes item c ∧ g.Above path c := by
  induction h with
  | start => exact ⟨d, hroot, fun _ hid => absurd hid List.not_mem_nil⟩
  | @item path id items item _ hid hnode hitem ih =>
    obtain ⟨c, hc, habove⟩ := ih
    cases hc with
    | object hnode' => simp_all
    | @array _ items' ds hnode' hlength hitems =>
      obtain rfl : items = items' := by simpa using hnode.symm.trans hnode'
      obtain ⟨i, hi⟩ := List.getElem?_of_mem hitem
      have hlt : i < ds.length := hlength ▸ (List.getElem?_eq_some_iff.1 hi).1
      have hd := List.getElem?_eq_getElem hlt
      exact ⟨ds[i], hitems i item _ hi hd,
        habove.child (.array hnode hlength hitems) (List.mem_of_getElem? hd)⟩
  | @property path id properties key item _ hid hnode hitem ih =>
    obtain ⟨c, hc, habove⟩ := ih
    cases hc with
    | array hnode' => simp_all
    | @object _ properties' ds hnode' hkeys hvalues =>
      obtain rfl : properties = properties' := by simpa using hnode.symm.trans hnode'
      have hkey : key ∈ Entries.keys ds := hkeys ▸ List.mem_map_of_mem hitem
      obtain ⟨c, hget⟩ := Entries.mem_keys_iff.1 hkey
      have hmem := Entries.mem_of_get? hget
      exact ⟨c, hvalues key item c hitem hmem,
        habove.child (.object hnode hkeys hvalues) (List.mem_map_of_mem hmem)⟩

/-- Where there is no cycle, paths get longer until there is nothing left to enter. -/
theorem Acyclic.exists_denotes (hroot : g.Acyclic root) (h : g.Enters root path item) :
    ∃ c, g.Denotes item c := by
  induction hn : g.unmarked path using Nat.strongRecOn generalizing path item with
  | ind n ih =>
    subst hn
    cases item with
    | data c => exact ⟨c, .data c⟩
    | container id =>
      obtain ⟨hid, hlt⟩ := hroot path id h
      have hnode := List.getElem?_eq_getElem hlt
      generalize g[id] = node at hnode
      -- One tree for each item, so that a container that is there twice gets it twice.
      have hbelow : ∀ item, ∃ c, g.Enters root (id :: path) item → g.Denotes item c := by
        intro item
        by_cases henters : g.Enters root (id :: path) item
        · obtain ⟨c, hc⟩ := ih _ (unmarked_cons_lt hid hnode) henters rfl
          exact ⟨c, fun _ => hc⟩
        · exact ⟨.null, fun h => absurd h henters⟩
      obtain ⟨f, hf⟩ := Classical.skolem.1 hbelow
      cases node with
      | array items =>
        refine ⟨.array (items.map f), .array hnode (List.length_map f) (of_getElem?_map ?_)⟩
        exact fun item hitem => hf item (.item h hid hnode hitem)
      | object properties =>
        refine ⟨.object (Entries.mapValues f (Entries.ofHost properties)),
          .object hnode (Entries.keys_mapValues f _)
            (Entries.of_mem_mapValues (Entries.nodup_keys_ofHost properties) (fun _ he => he) ?_)⟩
        exact fun e he => hf e.2 (.property h hid hnode he)

theorem exists_denotes_iff : (∃ d, g.Denotes root d) ↔ g.Acyclic root := by
  constructor
  · rintro ⟨d, hd⟩ path id h
    obtain ⟨c, hc, habove⟩ := h.denotes hd
    refine ⟨habove.not_mem hc, ?_⟩
    cases hc with
    | array hnode => exact (List.getElem?_eq_some_iff.1 hnode).1
    | object hnode => exact (List.getElem?_eq_some_iff.1 hnode).1
  · intro h
    exact h.exists_denotes .start

end HostGraph

namespace Value

theorem ofHost_array (ds : List HostData) : ofHost (.array ds) = .array (ds.map ofHost) := by
  rw [ofHost, ofHostItems_eq_map]

theorem ofHost_object {ds : List (Text × HostData)}
    (h : Text.InHostOrder (Entries.keys ds)) :
    ofHost (.object ds) = .object (Entries.mapValues ofHost ds) := by
  rw [ofHost, ofHostProperties_eq_mapValues, Entries.ofHost_mapValues,
    Entries.ofHost_of_inHostOrder h]

theorem toHost_array (vs : List Value) : toHost (.array vs) = .array (vs.map toHost) := by
  have hitems : toHostItems vs = vs.map toHost := by
    induction vs with
    | nil => rfl
    | cons v vs ih => rw [toHostItems, ih, List.map_cons]
  rw [toHost, hitems]

theorem toHost_object (entries : List (Text × Value)) :
    toHost (.object entries) = .object (Entries.mapValues toHost (Entries.ofHost entries)) := by
  have hentries : toHostEntries entries = Entries.mapValues toHost entries := by
    induction entries with
    | nil => rfl
    | cons e entries ih => rw [toHostEntries, ih]; rfl
  rw [toHost, hentries, Entries.ofHost_mapValues]

end Value

namespace HostGraph

variable {g : HostGraph} {path : List Nat} {item root : HostItem} {d : HostData}

theorem Denotes.unfolds (h : g.Denotes item d) (habove : g.Above path d) :
    g.Unfolds path item (.ofHost d) := by
  induction h generalizing path with
  | data d => exact .data path d
  | @array id items ds hnode hlength hitems ih =>
    have hself : g.Denotes (.container id) (.array ds) := .array hnode hlength hitems
    rw [Value.ofHost_array]
    refine .array (habove.not_mem hself) hnode (by rw [List.length_map, hlength]) ?_
    intro i item v hitem hv
    rw [List.getElem?_map] at hv
    obtain ⟨c, hc, rfl⟩ := Option.map_eq_some_iff.1 hv
    exact ih i item c hitem hc (habove.child hself (List.mem_of_getElem? hc))
  | @object id properties ds hnode hkeys hvalues ih =>
    have hself : g.Denotes (.container id) (.object ds) := .object hnode hkeys hvalues
    have horder : Text.InHostOrder (Entries.keys ds) :=
      hkeys ▸ Entries.inHostOrder_ofHost properties
    rw [Value.ofHost_object horder]
    refine .object (habove.not_mem hself) hnode ?_ ?_
    · rw [Entries.keys_mapValues, hkeys]
    · intro key item v hitem hv
      obtain ⟨e, he, heq⟩ := List.mem_map.1 hv
      obtain ⟨rfl, rfl⟩ := Prod.mk.inj heq
      exact ih e.1 item e.2 hitem he (habove.child hself (List.mem_map_of_mem he))

theorem toValue_of_denotes (h : g.Denotes root d) : g.toValue root = .ofHost d :=
  (g.unfolds_convert [] root).unique (h.unfolds fun _ hid => absurd hid List.not_mem_nil)

end HostGraph

/-! ## From the host and back -/

namespace HostData

/-- What a value can hold and give back: not a foreign value, not the negative zero, a whole
    number only if it has 64 bits and is no safe number, and an object that lists its
    properties as the host does. What is in a container is not looked at. -/
def IsPortable : HostData → Prop
  | .foreign => False
  | .number x => x ≠ .zero true
  | .whole n => -9223372036854775808 ≤ n ∧ n < 9223372036854775808 ∧ Double.maxSafe < n.natAbs
  | .object properties => Text.InHostOrder (Entries.keys properties)
  | _ => True

instance : DecidablePred IsPortable
  | .foreign => inferInstanceAs (Decidable False)
  | .number x => inferInstanceAs (Decidable (x ≠ .zero true))
  | .whole n => inferInstanceAs (Decidable (-9223372036854775808 ≤ n ∧ _))
  | .object properties => inferInstanceAs (Decidable (Text.InHostOrder (Entries.keys properties)))
  | .null | .bool _ | .text _ | .array _ => inferInstanceAs (Decidable True)

/-- Everything inside the data can be given back. -/
def Portable (d : HostData) : Prop := ∀ c, Inside children c d → c.IsPortable

theorem portable_iff {d : HostData} : d.Portable ↔ d.IsPortable ∧ ∀ c ∈ d.children, c.Portable :=
  forall_inside_iff

end HostData

namespace Value

theorem ofInt_of_range {n : Int} (h : -9223372036854775808 ≤ n ∧ n < 9223372036854775808) :
    ofInt n = .int n := by
  rw [ofInt, wrap64_of_range h]

theorem toHost_int_of_le_maxSafe {n : Int} (h : n.natAbs ≤ Double.maxSafe) :
    toHost (.int n) = .number (.ofInt n) := by
  rw [toHost, Double.toSafeInt?_ofInt, if_pos h]
  rfl

theorem toHost_int_of_maxSafe_lt {n : Int} (h : Double.maxSafe < n.natAbs) :
    toHost (.int n) = .whole n := by
  rw [toHost, Double.toSafeInt?_ofInt, if_neg (Nat.not_le_of_lt h)]
  rfl

theorem toHost_ofHost {d : HostData} (h : d.Portable) : (ofHost d).toHost = d := by
  induction d using HostData.children_induction with
  | step d ih =>
    obtain ⟨hnode, hbelow⟩ := HostData.portable_iff.1 h
    cases d with
    | foreign => exact hnode.elim
    | number x =>
      cases hsafe : x.toSafeInt? with
      | none => rw [ofHost, hsafe]; rfl
      | some n =>
        obtain ⟨hvalue, hn⟩ := Double.toSafeInt?_eq_some_iff.1 hsafe
        have hrange : -9223372036854775808 ≤ n ∧ n < 9223372036854775808 := by
          rw [Double.maxSafe] at hn
          omega
        rw [ofHost, hsafe, Option.elim_some, ofInt_of_range hrange, toHost_int_of_le_maxSafe hn,
          Double.ofInt_of_toInt? hnode hvalue]
    | whole n =>
      rw [ofHost, ofInt_of_range ⟨hnode.1, hnode.2.1⟩, toHost_int_of_maxSafe_lt hnode.2.2]
    | array ds =>
      have hitems : ds.map (toHost ∘ ofHost) = ds.map id :=
        List.map_congr_left fun c hc => ih c hc (hbelow c hc)
      rw [ofHost_array, toHost_array, List.map_map, hitems, List.map_id]
    | object ds =>
      have horder : Text.InHostOrder (Entries.keys (Entries.mapValues ofHost ds)) := by
        rw [Entries.keys_mapValues]
        exact hnode
      have hvalues : Entries.mapValues toHost (Entries.mapValues ofHost ds) = ds := by
        rw [Entries.mapValues_mapValues]
        apply Entries.mapValues_eq_self
        intro e he
        have hmem : e.2 ∈ (HostData.object ds).children := List.mem_map_of_mem he
        exact ih e.2 hmem (hbelow e.2 hmem)
      rw [ofHost_object hnode, toHost_object, Entries.ofHost_of_inHostOrder horder, hvalues]
    | _ => rw [ofHost, toHost]

end Value

namespace HostGraph

/-- An item stands for a tree exactly if there is no cycle below it. If the tree holds only
    what can be given back, then the host data of the item's value is the tree itself, with
    its properties in the same order. -/
theorem toHost_toValue (g : HostGraph) (root : HostItem) :
    ((∃ d, g.Denotes root d) ↔ g.Acyclic root) ∧
    ∀ d : HostData, g.Denotes root d → d.Portable → (g.toValue root).toHost = d := by
  refine ⟨exists_denotes_iff, fun d hd hportable => ?_⟩
  rw [toValue_of_denotes hd, Value.toHost_ofHost hportable]

/-- The properties of an object that has one list in it three times. -/
def sharers : List (Text × HostItem) :=
  [("2", .container 1), ("10", .container 1), ("a", .container 1)]

def sharing : HostGraph :=
  [.object sharers,
    .array [.data (.whole 9007199254740993), .data (.number (.ofRatio false 5 2)), .data .null]]

def shared : HostData :=
  .array [.whole 9007199254740993, .number (.ofRatio false 5 2), .null]

theorem toHost_toValue_sharing :
    sharing.Acyclic (.container 0) ∧
      (sharing.toValue (.container 0)).toHost =
        .object [("2", shared), ("10", shared), ("a", shared)] := by
  have horder : Text.InHostOrder (Entries.keys sharers) := by decide +kernel
  have hshared : sharing.Denotes (.container 1) shared := by
    refine .array rfl rfl fun i item d hitem hd => ?_
    rcases i with _ | _ | _ | i <;> cases hitem <;> cases hd <;> exact .data _
  have hroot : sharing.Denotes (.container 0)
      (.object (Entries.mapValues (fun _ => shared) sharers)) := by
    have hsharers := Entries.ofHost_of_inHostOrder horder
    refine .object rfl (congrArg Entries.keys hsharers.symm) ?_
    rw [hsharers]
    refine Entries.of_mem_mapValues horder.nodup (fun _ he => he) ?_
    simpa [sharers] using hshared
  have hleaves : HostData.Portable (.whole 9007199254740993) ∧
      HostData.Portable (.number (.ofRatio false 5 2)) ∧ HostData.Portable .null :=
    ⟨(forall_inside_leaf_iff rfl).2 (by decide), (forall_inside_leaf_iff rfl).2 (by decide +kernel),
      (forall_inside_leaf_iff rfl).2 trivial⟩
  have hlist : shared.Portable :=
    HostData.portable_iff.2 ⟨trivial, by simpa [shared, HostData.children] using hleaves⟩
  have hportable : HostData.Portable (.object (Entries.mapValues (fun _ => shared) sharers)) :=
    HostData.portable_iff.2 ⟨horder, by
      simpa [sharers, Entries.mapValues, HostData.children] using hlist⟩
  obtain ⟨hacyclic, hback⟩ := toHost_toValue sharing (.container 0)
  exact ⟨hacyclic.1 ⟨_, hroot⟩, hback _ hroot hportable⟩

end HostGraph

/-! ## To the host and back -/

namespace Value

def isContainer : Value → Bool
  | .array _ | .object _ => true
  | _ => false

/-- The second value is the first one with the entries of every object inside it as the host
    lists them. -/
inductive Relisted : Value → Value → Prop where
  | scalar {v : Value} (h : v.isContainer = false) : Relisted v v
  | array {xs ys : List Value} (hlength : ys.length = xs.length)
    (hitems : ∀ (i : Nat) x y, xs[i]? = some x → ys[i]? = some y → Relisted x y) :
    Relisted (.array xs) (.array ys)
  | object {xs ys : List (Text × Value)}
    (hkeys : Text.HostLists (Entries.keys xs) (Entries.keys ys))
    (hvalues : ∀ key x y, (key, x) ∈ xs → (key, y) ∈ ys → Relisted x y) :
    Relisted (.object xs) (.object ys)

/-- The value has its data, and it is no number that is read as an integer. What is in a
    container is not looked at. -/
def IsExportable : Value → Prop
  | .absent _ => False
  | .float x => x.toSafeInt? = none
  | _ => True

instance : DecidablePred IsExportable
  | .absent _ => inferInstanceAs (Decidable False)
  | .float x => inferInstanceAs (Decidable (x.toSafeInt? = none))
  | .null | .int _ | .bool _ | .string _ | .array _ | .object _ => inferInstanceAs (Decidable True)

/-- Everything inside the value is read back as what it is. -/
def Exportable (v : Value) : Prop := ∀ w, Inside children w v → w.IsExportable

theorem exportable_iff {v : Value} :
    v.Exportable ↔ v.IsExportable ∧ ∀ w ∈ v.children, w.Exportable :=
  forall_inside_iff

theorem ofHost_toHost_int {n : Int} (h : -9223372036854775808 ≤ n ∧ n < 9223372036854775808) :
    ofHost (toHost (.int n)) = .int n := by
  by_cases hsafe : n.natAbs ≤ Double.maxSafe
  · rw [toHost_int_of_le_maxSafe hsafe, ofHost, Double.toSafeInt?_ofInt, if_pos hsafe,
      Option.elim_some, ofInt_of_range h]
  · rw [toHost_int_of_maxSafe_lt (Nat.lt_of_not_le hsafe), ofHost, ofInt_of_range h]

theorem relisted_ofHost_toHost {v : Value} (hv : v.WellFormed) (hexport : v.Exportable) :
    v.Relisted (ofHost v.toHost) := by
  induction v using children_induction with
  | step v ih =>
    obtain ⟨hnode, hbelow⟩ := exportable_iff.1 hexport
    cases v with
    | absent kind => exact hnode.elim
    | int n =>
      rw [WellFormed] at hv
      rw [ofHost_toHost_int hv]
      exact .scalar rfl
    | float x =>
      have hfloat : x.toSafeInt? = none := hnode
      rw [toHost, ofHost, hfloat]
      exact .scalar rfl
    | array items =>
      rw [WellFormed, wellFormedItems_iff] at hv
      rw [toHost_array, ofHost_array, List.map_map]
      refine .array (List.length_map _) (of_getElem?_map fun w hw => ?_)
      exact ih w hw (hv w hw) (hbelow w hw)
    | object entries =>
      rw [WellFormed, wellFormedEntries_iff] at hv
      -- The host orders the entries when they are exported; reading them moves none.
      have hkeys : Entries.keys (Entries.mapValues toHost (Entries.ofHost entries)) =
          Entries.keys (Entries.ofHost entries) := Entries.keys_mapValues toHost _
      rw [toHost_object, ofHost_object (hkeys ▸ Entries.inHostOrder_ofHost entries),
        Entries.mapValues_mapValues]
      refine .object ?_ ?_
      · rw [Entries.keys_mapValues]
        exact Entries.hostLists_ofHost hv.1
      · refine Entries.of_mem_mapValues hv.1 (fun _ he => Entries.mem_of_mem_ofHost he) ?_
        intro e he
        have hmem : e.2 ∈ (object entries).children := List.mem_map_of_mem he
        exact ih e.2 hmem (hv.2 e he) (hbelow e.2 hmem)
    | _ =>
      rw [toHost, ofHost]
      exact .scalar rfl

/-- A well-formed value that has all its data and no floating-point number in the place of an
    integer is read back from its host data, however the host builds them. Only the entries of
    objects are in host order then. An integer comes back as it was. -/
theorem toValue_toHost {v : Value} (hv : v.WellFormed) (hexport : v.Exportable)
    {g : HostGraph} {root : HostItem} (hroot : g.Denotes root v.toHost) :
    v.Relisted (g.toValue root) ∧ ∀ n, v = .int n → g.toValue root = .int n := by
  rw [HostGraph.toValue_of_denotes hroot]
  refine ⟨relisted_ofHost_toHost hv hexport, ?_⟩
  rintro n rfl
  rw [WellFormed] at hv
  exact ofHost_toHost_int hv

/-- Integers on both sides of the safe range, under keys that the host lists otherwise. -/
def scattered : Value :=
  .object [("b", .int (-9223372036854775808)), ("10", .int 9007199254740991),
    ("2", .array [.int 9007199254740993, .float (.ofRatio false 5 2)])]

theorem relisted_scattered :
    scattered.Relisted (HostGraph.toValue [] (.data scattered.toHost)) := by
  have hkeys : (Entries.keys [("b", Value.int (-9223372036854775808)),
      ("10", .int 9007199254740991),
      ("2", .array [.int 9007199254740993, .float (.ofRatio false 5 2)])]).Nodup := by decide
  have hwf : scattered.WellFormed := by
    simp [scattered, WellFormed, WellFormedItems, WellFormedEntries, hkeys]
  have hint (n : Int) : Exportable (.int n) := (forall_inside_leaf_iff rfl).2 trivial
  have hfloat : Exportable (.float (.ofRatio false 5 2)) :=
    (forall_inside_leaf_iff rfl).2 (by decide +kernel)
  have hlist : Exportable (.array [.int 9007199254740993, .float (.ofRatio false 5 2)]) :=
    exportable_iff.2 ⟨trivial, by simp [children, hint, hfloat]⟩
  have hexport : scattered.Exportable :=
    exportable_iff.2 ⟨trivial, by simp [scattered, children, hint, hlist]⟩
  exact (toValue_toHost hwf hexport (.data _)).1

end Value

end Reckon
