-- SUMMARY: The conversion of a host graph ends, and its value is the unfolding in which exactly the references to ancestors are null.
import Reckon.Proofs.HostOrder
import Reckon.Value.Host

/-!
# Unfolding

A conversion goes from container to container and may come to one again, either
inside itself or, where it is shared, beside itself. The marks tell the two apart
because they are the path that led to the current item: a container is marked
when it is entered, and its mark is taken away when it is left. So a reference to
a container on the path gives null, and every other reference is followed.

No path is longer than there are containers, since none is entered inside itself.
-/

namespace Reckon

namespace Entries

variable {α : Type}

/-- Maps that list the same keys are the same if they agree on each of them. -/
theorem ext_keys {es es' : Entries α} (hkeys : keys es = keys es')
    (hvalues : ∀ key v w, (key, v) ∈ es → (key, w) ∈ es' → v = w) : es = es' := by
  induction es generalizing es' with
  | nil => cases es' <;> simp_all [keys]
  | cons e es ih =>
    obtain ⟨k, v⟩ := e
    cases es' with
    | nil => simp [keys] at hkeys
    | cons e' es' =>
      obtain ⟨k', w⟩ := e'
      obtain ⟨rfl, hrest⟩ : k = k' ∧ keys es = keys es' := by simpa [keys] using hkeys
      have hvalue : v = w := hvalues k v w List.mem_cons_self List.mem_cons_self
      have htail : es = es' := ih hrest fun key v w hv hw =>
        hvalues key v w (List.mem_cons_of_mem _ hv) (List.mem_cons_of_mem _ hw)
      rw [hvalue, htail]

/-- Maps that follow a third one key by key are the same if they agree on each of its keys. -/
theorem ext_listing {β : Type} {listing : Entries β} {es es' : Entries α}
    (hkeys : keys es = keys listing) (hkeys' : keys es' = keys listing)
    (hvalues : ∀ key item v w, (key, item) ∈ listing → (key, v) ∈ es → (key, w) ∈ es' → v = w) :
    es = es' := by
  apply ext_keys (hkeys.trans hkeys'.symm)
  intro key v w hv hw
  have hkey : key ∈ keys listing := hkeys ▸ List.mem_map_of_mem hv
  obtain ⟨item, hget⟩ := mem_keys_iff.1 hkey
  exact hvalues key item v w (mem_of_get? hget) hv hw

end Entries

/-- Lists that follow a third one item by item are the same if they agree at each of its
    items. -/
theorem ext_items {α β : Type} {items : List β} {xs ys : List α}
    (hlength : xs.length = items.length) (hlength' : ys.length = items.length)
    (hitems : ∀ (i : Nat) item x y, items[i]? = some item → xs[i]? = some x → ys[i]? = some y →
      x = y) : xs = ys := by
  apply List.ext_getElem (hlength.trans hlength'.symm)
  intro i hi hi'
  have hitem := List.getElem?_eq_getElem (hlength ▸ hi : i < items.length)
  exact hitems i _ _ _ hitem (List.getElem?_eq_getElem hi) (List.getElem?_eq_getElem hi')

theorem of_getElem?_map {α β : Type} {items : List β} {f : β → α} {R : β → α → Prop}
    (hR : ∀ item ∈ items, R item (f item)) (i : Nat) (item : β) (x : α)
    (hitem : items[i]? = some item) (hx : (items.map f)[i]? = some x) : R item x := by
  rw [List.getElem?_map, hitem] at hx
  cases hx
  exact hR item (List.mem_of_getElem? hitem)

namespace Value

theorem ofHostItems_eq_map (ds : List HostData) : ofHostItems ds = ds.map ofHost := by
  induction ds with
  | nil => rfl
  | cons d ds ih => rw [ofHostItems, ih, List.map_cons]

theorem ofHostProperties_eq_mapValues (ds : List (Text × HostData)) :
    ofHostProperties ds = Entries.mapValues ofHost ds := by
  induction ds with
  | nil => rfl
  | cons e ds ih => rw [ofHostProperties, ih]; rfl

end Value

namespace HostGraph

variable {g : HostGraph} {path : List Nat} {id : Nat}

/-! ## Unfoldings -/

/-- The value is the unfolding of the item inside the containers of the path: a reference to
    one of them is null, and any other container is unfolded with all that is in it. A
    reference to nothing is null as well. -/
inductive Unfolds (g : HostGraph) : List Nat → HostItem → Value → Prop where
  | data (path : List Nat) (d : HostData) : Unfolds g path (.data d) (.ofHost d)
  | missing {path : List Nat} {id : Nat} (hnode : g[id]? = none) :
    Unfolds g path (.container id) .null
  | ancestor {path : List Nat} {id : Nat} (hid : id ∈ path) : Unfolds g path (.container id) .null
  | array {path : List Nat} {id : Nat} {items : List HostItem} {vs : List Value}
    (hid : id ∉ path) (hnode : g[id]? = some (.array items)) (hlength : vs.length = items.length)
    (hitems : ∀ (i : Nat) item v, items[i]? = some item → vs[i]? = some v →
      Unfolds g (id :: path) item v) :
    Unfolds g path (.container id) (.array vs)
  /-- The entries come in the order in which the host object lists its properties. -/
  | object {path : List Nat} {id : Nat} {properties : List (Text × HostItem)}
    {entries : List (Text × Value)} (hid : id ∉ path)
    (hnode : g[id]? = some (.object properties))
    (hkeys : Entries.keys entries = Entries.keys (Entries.ofHost properties))
    (hvalues : ∀ key item v, (key, item) ∈ Entries.ofHost properties → (key, v) ∈ entries →
      Unfolds g (id :: path) item v) :
    Unfolds g path (.container id) (.object entries)

namespace Unfolds

theorem array_map {items : List HostItem} {f : HostItem → Value} (hid : id ∉ path)
    (hnode : g[id]? = some (.array items))
    (hitems : ∀ item ∈ items, g.Unfolds (id :: path) item (f item)) :
    g.Unfolds path (.container id) (.array (items.map f)) :=
  .array hid hnode (List.length_map f) (of_getElem?_map hitems)

theorem object_mapValues {properties : List (Text × HostItem)} {f : HostItem → Value}
    (hid : id ∉ path) (hnode : g[id]? = some (.object properties))
    (hvalues : ∀ e ∈ Entries.ofHost properties, g.Unfolds (id :: path) e.2 (f e.2)) :
    g.Unfolds path (.container id)
      (.object (Entries.mapValues f (Entries.ofHost properties))) :=
  .object hid hnode (Entries.keys_mapValues f _)
    (Entries.of_mem_mapValues (Entries.nodup_keys_ofHost properties) (fun _ he => he) hvalues)

/-- An item has no more than one unfolding. -/
theorem unique {item : HostItem} {v w : Value} (hv : g.Unfolds path item v)
    (hw : g.Unfolds path item w) : v = w := by
  induction hv generalizing w with
  | data path d =>
    cases hw
    rfl
  | missing hnode => cases hw <;> simp_all
  | ancestor hid => cases hw <;> simp_all
  | @array path id items vs hid hnode hlength hitems ih =>
    cases hw with
    | missing hnode' => simp_all
    | ancestor hid' => exact absurd hid' hid
    | object hid' hnode' => simp_all
    | @array _ _ items' ws hid' hnode' hlength' hitems' =>
      obtain rfl : items = items' := by simpa using hnode.symm.trans hnode'
      congr 1
      apply ext_items hlength hlength'
      intro i item v w hitem hv hw
      exact ih i item v hitem hv (hitems' i item w hitem hw)
  | @object path id properties entries hid hnode hkeys hvalues ih =>
    cases hw with
    | missing hnode' => simp_all
    | ancestor hid' => exact absurd hid' hid
    | array hid' hnode' => simp_all
    | @object _ _ properties' entries' hid' hnode' hkeys' hvalues' =>
      obtain rfl : properties = properties' := by simpa using hnode.symm.trans hnode'
      congr 1
      apply Entries.ext_listing hkeys hkeys'
      intro key item v w hitem hv hw
      exact ih key item v hitem hv (hvalues' key item w hitem hw)

end Unfolds

/-! ## Conversions -/

/-- Each item finds the marks that the one before it found. -/
theorem result_convertItems (g : HostGraph) (marks : List Nat) (items : List HostItem) :
    (g.convertItems marks items).result = items.map fun item => (g.convert marks item).result := by
  induction items with
  | nil => rw [convertItems]; rfl
  | cons item items ih =>
    rw [convertItems, List.map_cons]
    simp only
    rw [(g.convert marks item).marks_eq, ih]

theorem result_convertProperties (g : HostGraph) (marks : List Nat) (entries : Entries Value)
    (properties : List (Text × HostItem)) :
    (g.convertProperties marks entries properties).result =
      (Entries.mapValues (fun item => (g.convert marks item).result) properties).foldl
        (fun es e => Entries.insert es e.1 e.2) entries := by
  induction properties generalizing entries with
  | nil => rw [convertProperties]; rfl
  | cons e properties ih =>
    obtain ⟨key, item⟩ := e
    rw [convertProperties]
    simp only
    rw [(g.convert marks item).marks_eq, ih]
    rfl

theorem result_convertProperties_ofHost (g : HostGraph) (marks : List Nat)
    (properties : List (Text × HostItem)) :
    (g.convertProperties marks [] (Entries.ofHost properties)).result =
      Entries.mapValues (fun item => (g.convert marks item).result)
        (Entries.ofHost properties) := by
  rw [result_convertProperties]
  apply Entries.ofList_of_nodup
  rw [Entries.keys_mapValues]
  exact Entries.nodup_keys_ofHost properties

/-- The marks that a conversion finds are the path to its item. -/
theorem unfolds_convert (g : HostGraph) (marks : List Nat) (item : HostItem) :
    g.Unfolds marks item (g.convert marks item).result := by
  -- Each container that is entered leaves one less to be entered below it.
  induction hn : g.unmarked marks using Nat.strongRecOn generalizing marks item with
  | ind n ih =>
    subst hn
    cases item with
    | data d =>
      rw [convert]
      exact .data marks d
    | container id =>
      rw [convert]
      split
      next hmarked => exact .ancestor hmarked
      next hmarked =>
        split
        next hnode => exact .missing hnode
        next items hnode =>
          rw [Converted.unmark, result_convertItems]
          exact .array_map hmarked hnode fun item _ =>
            ih _ (unmarked_cons_lt hmarked hnode) (id :: marks) item rfl
        next properties hnode =>
          rw [Converted.unmark, result_convertProperties_ofHost]
          exact .object_mapValues hmarked hnode fun e _ =>
            ih _ (unmarked_cons_lt hmarked hnode) (id :: marks) e.2 rfl

/-- To unfold a graph only into containers that are not on the path gives its unfolding. -/
theorem unfolds_unfoldFrom (g : HostGraph) {unopened path : List Nat} (hnodup : unopened.Nodup)
    (hunopened : ∀ id < g.length, id ∈ unopened ↔ id ∉ path) (item : HostItem) :
    g.Unfolds path item (.ofHost (g.unfoldFrom unopened item)) := by
  induction hn : unopened.length using Nat.strongRecOn generalizing unopened path item with
  | ind n ih =>
    subst hn
    cases item with
    | data d =>
      rw [unfoldFrom]
      exact .data path d
    | container id =>
      have hbelow : id ∈ unopened → ∀ item,
          g.Unfolds (id :: path) item (.ofHost (g.unfoldFrom (unopened.erase id) item)) := by
        intro hopen item
        refine ih _ ?_ (hnodup.erase id) ?_ item rfl
        · rw [List.length_erase_of_mem hopen]
          exact Nat.sub_lt (List.length_pos_of_mem hopen) Nat.one_pos
        · intro id' hlt
          rw [hnodup.mem_erase_iff, hunopened id' hlt, List.mem_cons, not_or]
      have hlt : ∀ {node}, g[id]? = some node → id < g.length :=
        fun hnode => (List.getElem?_eq_some_iff.1 hnode).1
      rw [unfoldFrom]
      split
      next hopen =>
        split
        next hnode => exact .missing hnode
        next items hnode =>
          rw [Value.ofHost, Value.ofHostItems_eq_map, List.map_map]
          exact .array_map ((hunopened id (hlt hnode)).1 hopen) hnode fun item _ =>
            hbelow hopen item
        next properties hnode =>
          have hvalues : Entries.mapValues Value.ofHost (properties.map fun e =>
              (e.1, g.unfoldFrom (unopened.erase id) e.2)) =
                Entries.mapValues
                  (fun item => Value.ofHost (g.unfoldFrom (unopened.erase id) item))
                  properties := by
            simp [Entries.mapValues]
          rw [Value.ofHost, Value.ofHostProperties_eq_mapValues, hvalues,
            Entries.ofHost_mapValues]
          exact .object_mapValues ((hunopened id (hlt hnode)).1 hopen) hnode fun e _ =>
            hbelow hopen e.2
      next hopen =>
        cases hnode : g[id]? with
        | none => exact .missing hnode
        | some node =>
          apply Unfolds.ancestor
          apply Classical.not_not.1
          exact fun hid => hopen ((hunopened id (hlt hnode)).2 hid)

/-- To convert a graph is to convert the tree that is seen in it. -/
theorem ofHost_unfold (g : HostGraph) (root : HostItem) :
    Value.ofHost (g.unfold root) = g.toValue root := by
  have hunfold : g.Unfolds [] root (.ofHost (g.unfold root)) :=
    g.unfolds_unfoldFrom List.nodup_range (by simp) root
  exact hunfold.unique (g.unfolds_convert [] root)

/-! ## Paths -/

/-- While the root is converted, the item is, inside the containers of the path, of which the
    innermost one comes first. -/
inductive Enters (g : HostGraph) (root : HostItem) : List Nat → HostItem → Prop where
  | start : Enters g root [] root
  | item {path : List Nat} {id : Nat} {items : List HostItem} {item : HostItem}
    (hpath : Enters g root path (.container id)) (hid : id ∉ path)
    (hnode : g[id]? = some (.array items)) (hitem : item ∈ items) :
    Enters g root (id :: path) item
  | property {path : List Nat} {id : Nat} {properties : List (Text × HostItem)}
    {key : Text} {item : HostItem} (hpath : Enters g root path (.container id)) (hid : id ∉ path)
    (hnode : g[id]? = some (.object properties))
    (hitem : (key, item) ∈ Entries.ofHost properties) :
    Enters g root (id :: path) item

theorem Enters.length_le {root item : HostItem} (h : g.Enters root path item) :
    path.length ≤ g.length := by
  have henter {path : List Nat} {id : Nat} {node : HostContainer} (hid : id ∉ path)
      (hnode : g[id]? = some node) (hpath : path.Nodup ∧ ∀ id ∈ path, id ∈ List.range g.length) :
      (id :: path).Nodup ∧ ∀ id' ∈ id :: path, id' ∈ List.range g.length := by
    have hlt := (List.getElem?_eq_some_iff.1 hnode).1
    exact ⟨List.nodup_cons.2 ⟨hid, hpath.1⟩,
      List.forall_mem_cons.2 ⟨List.mem_range.2 hlt, hpath.2⟩⟩
  have hpath : path.Nodup ∧ ∀ id ∈ path, id ∈ List.range g.length := by
    induction h with
    | start => simp
    | item _ hid hnode _ ih => exact henter hid hnode ih
    | property _ hid hnode _ ih => exact henter hid hnode ih
  have hle := hpath.1.length_le_of_subset hpath.2
  rwa [List.length_range] at hle

/-- Whatever the containers share and however they contain each other, the value of an item
    is its unfolding, and there is one: references to ancestors are null, and all others are
    followed. The tree that is seen from the item has the same value. No conversion is inside
    more others than there are containers. -/
theorem toValue_eq_iff_unfolds (g : HostGraph) (root : HostItem) :
    (∀ v, g.toValue root = v ↔ g.Unfolds [] root v) ∧
    Value.ofHost (g.unfold root) = g.toValue root ∧
    ∀ path item, g.Enters root path item → path.length ≤ g.length := by
  have hconvert := g.unfolds_convert [] root
  refine ⟨fun v => ⟨?_, fun hv => hconvert.unique hv⟩, g.ofHost_unfold root, ?_⟩
  · rintro rfl
    exact hconvert
  · intro path item h
    exact h.length_le

/-- A list that has itself in it and, twice, a list in which it is. -/
def entangled : HostGraph :=
  [.array [.container 1, .container 0, .container 1], .array [.container 0, .data (.whole 5)]]

theorem toValue_entangled :
    entangled.toValue (.container 0) =
        .array [.array [.null, .int 5], .null, .array [.null, .int 5]] ∧
      entangled.Enters (.container 0) [1, 0] (.container 0) ∧ 2 ≤ entangled.length := by
  have hinner : entangled.Unfolds [0] (.container 1) (.array [.null, .int 5]) := by
    refine .array (by decide) rfl rfl fun i item v hitem hv => ?_
    rcases i with _ | _ | i <;> cases hitem <;> cases hv
    · exact .ancestor (by decide)
    · exact .data [1, 0] (.whole 5)
  have houter : entangled.Unfolds [] (.container 0)
      (.array [.array [.null, .int 5], .null, .array [.null, .int 5]]) := by
    refine .array (by decide) rfl rfl fun i item v hitem hv => ?_
    rcases i with _ | _ | _ | i <;> cases hitem <;> cases hv
    · exact hinner
    · exact .ancestor (by decide)
    · exact hinner
  have henters : entangled.Enters (.container 0) [1, 0] (.container 0) :=
    .item (.item .start (by decide) rfl (.head _)) (by decide) rfl (.head _)
  obtain ⟨hvalue, -, hlength⟩ := toValue_eq_iff_unfolds entangled (.container 0)
  exact ⟨(hvalue _).2 houter, henters, hlength _ _ henters⟩

end HostGraph

end Reckon
