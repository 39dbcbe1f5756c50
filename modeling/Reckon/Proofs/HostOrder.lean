-- SUMMARY: Maps keep their keys distinct, and host objects list theirs with index keys first.
import Reckon.Entries

/-!
# Host order

Writing a key keeps it in its place or puts it behind the others, so a map that is
built by writing has distinct keys, and one that has distinct keys is built from
its own entries. A host object lists the same entries in another order: the keys
that are array indexes come first and ascend, and the others keep their order.
Entries that are in this order already are not moved.
-/

namespace Reckon

/-! ## Keys -/

theorem Text.ofNat_of_index? {key : Text} {n : Nat} (h : key.index? = some n) :
    Text.ofNat n = key := by
  unfold index? at h
  split at h
  · simp only [Option.ite_none_right_eq_some, Option.some.injEq] at h
    obtain ⟨⟨-, hkey⟩, rfl⟩ := h
    exact hkey
  · cases h

/-- The host lists the first key before the second: if the second is an index, then the first
    is a smaller one. -/
def Text.Precedes (key key' : Text) : Prop :=
  ∀ n, key'.index? = some n → ∃ m, key.index? = some m ∧ m < n

instance (key key' : Text) : Decidable (key.Precedes key') :=
  decidable_of_iff (key'.index?.all fun n => key.index?.any fun m => m < n) (by
    unfold Text.Precedes
    cases key'.index? <;> cases key.index? <;> simp)

/-- Distinct keys with the indexes among them first, in ascending order. -/
structure Text.InHostOrder (keys : List Text) : Prop where
  nodup : keys.Nodup
  ordered : keys.Pairwise Text.Precedes

instance (keys : List Text) : Decidable (Text.InHostOrder keys) :=
  decidable_of_iff (keys.Nodup ∧ keys.Pairwise Text.Precedes)
    ⟨fun h => ⟨h.1, h.2⟩, fun h => ⟨h.nodup, h.ordered⟩⟩

/-- The host lists keys in another order: it keeps the order of those that are no indexes. -/
structure Text.HostLists (keys keys' : List Text) : Prop where
  perm : keys'.Perm keys
  inHostOrder : Text.InHostOrder keys'
  others : (keys'.filter fun key => key.index?.isNone) = keys.filter fun key => key.index?.isNone

namespace Entries

variable {α β : Type} {es : Entries α} {key : Text}

/-! ## Writing -/

theorem insert_of_not_mem (h : key ∉ keys es) (value : α) :
    insert es key value = es ++ [(key, value)] := by
  induction es with
  | nil => rfl
  | cons e es ih =>
    obtain ⟨k, v⟩ := e
    obtain ⟨hne, hrest⟩ : ¬ key = k ∧ key ∉ keys es := by simpa [keys] using h
    rw [insert, if_neg (Ne.symm hne), ih hrest, List.cons_append]

theorem keys_insert_of_not_mem (h : key ∉ keys es) (value : α) :
    keys (insert es key value) = keys es ++ [key] := by
  rw [insert_of_not_mem h, keys_append]
  rfl

theorem nodup_keys_insert (h : (keys es).Nodup) (key : Text) (value : α) :
    (keys (insert es key value)).Nodup := by
  by_cases hkey : key ∈ keys es
  · rw [keys_insert_of_mem hkey]
    exact h
  · rw [keys_insert_of_not_mem hkey, List.nodup_append]
    refine ⟨h, List.pairwise_singleton _ _, ?_⟩
    intro k hk k' hk' heq
    rw [List.mem_singleton.1 hk'] at heq
    exact hkey (heq ▸ hk)

/-- Whatever writing a pair keeps, writing all of them keeps. -/
theorem ofList_induction {P : Entries α → Prop} {pairs : List (Text × α)} (hnil : P [])
    (hinsert : ∀ es, ∀ pair ∈ pairs, P es → P (insert es pair.1 pair.2)) : P (ofList pairs) := by
  have hfold : ∀ es, P es → P (pairs.foldl (fun es pair => insert es pair.1 pair.2) es) := by
    clear hnil
    induction pairs with
    | nil => exact fun es hes => hes
    | cons pair pairs ih =>
      intro es hes
      obtain ⟨hpair, hpairs⟩ : (∀ es, P es → P (insert es pair.1 pair.2)) ∧
          ∀ es, ∀ pair ∈ pairs, P es → P (insert es pair.1 pair.2) :=
        ⟨fun es => hinsert es pair List.mem_cons_self,
          fun es pair hmem => hinsert es pair (List.mem_cons_of_mem _ hmem)⟩
      exact ih hpairs _ (hpair es hes)
  exact hfold [] hnil

theorem nodup_keys_ofList (pairs : List (Text × α)) : (keys (ofList pairs)).Nodup := by
  refine ofList_induction (P := fun es => (keys es).Nodup) List.nodup_nil ?_
  intro es pair _ hes
  exact nodup_keys_insert hes pair.1 pair.2

/-- Pairs with new keys are written behind what is there. -/
theorem foldl_insert_of_nodup (es : Entries α) {pairs : List (Text × α)}
    (h : (keys (es ++ pairs)).Nodup) :
    pairs.foldl (fun es pair => insert es pair.1 pair.2) es = es ++ pairs := by
  induction pairs generalizing es with
  | nil => simp
  | cons pair pairs ih =>
    have hnew : pair.1 ∉ keys es := by
      rw [keys_append, List.nodup_append] at h
      exact fun hmem => h.2.2 _ hmem _ List.mem_cons_self rfl
    have hsplit : es ++ pair :: pairs = insert es pair.1 pair.2 ++ pairs := by
      rw [insert_of_not_mem hnew]
      simp
    rw [hsplit] at h ⊢
    exact ih _ h

theorem ofList_of_nodup (h : (keys es).Nodup) : ofList es = es :=
  foldl_insert_of_nodup [] h

/-! ## Index keys first -/

/-- The entries with an index key, each with its index. -/
def indexed (es : Entries α) : List (Nat × Text × α) :=
  es.filterMap fun e => e.1.index?.map fun n => (n, e)

theorem indexFirst_eq (es : Entries α) :
    indexFirst es = ((indexed es).mergeSort fun a b => a.1 ≤ b.1).map (·.2) ++
      es.filter fun e => e.1.index?.isNone := rfl

theorem index?_of_mem_indexed {a : Nat × Text × α} (h : a ∈ indexed es) :
    a.2.1.index? = some a.1 := by
  obtain ⟨e, -, he⟩ := List.mem_filterMap.1 h
  obtain ⟨n, hn, rfl⟩ := Option.map_eq_some_iff.1 he
  exact hn

theorem map_snd_indexed (es : Entries α) :
    (indexed es).map (·.2) = es.filter fun e => e.1.index?.isSome := by
  induction es with
  | nil => rfl
  | cons e es ih =>
    unfold indexed at ih ⊢
    cases hindex : e.1.index? <;> simp [hindex, ih]

/-- The host lists the entries in an order of its own, and all of them. -/
theorem perm_indexFirst (es : Entries α) : (indexFirst es).Perm es := by
  have hothers : (fun e : Text × α => e.1.index?.isNone) = fun e => !e.1.index?.isSome := by
    funext e
    simp
  rw [indexFirst_eq, hothers]
  refine (List.Perm.append_right _ ((List.mergeSort_perm _ _).map _)).trans ?_
  rw [map_snd_indexed]
  exact List.filter_append_perm _ es

theorem pairwise_sorted_indexed (es : Entries α) :
    ((indexed es).mergeSort fun a b => a.1 ≤ b.1).Pairwise fun a b => a.1 ≤ b.1 := by
  have hsorted : ((indexed es).mergeSort fun a b => a.1 ≤ b.1).Pairwise
      fun a b => decide (a.1 ≤ b.1) = true := by
    apply List.pairwise_mergeSort
    · intro a b c hab hbc
      simp only [decide_eq_true_eq] at hab hbc ⊢
      exact Nat.le_trans hab hbc
    · intro a b
      simp [Nat.le_total]
  simpa using hsorted

theorem inHostOrder_indexFirst (h : (keys es).Nodup) :
    Text.InHostOrder (keys (indexFirst es)) := by
  have hnodup := ((perm_indexFirst es).map Prod.fst).nodup_iff.2 h
  refine ⟨hnodup, ?_⟩
  have hlast : ∀ {e e' : Text × α}, e' ∈ es.filter (fun e => e.1.index?.isNone) →
      Text.Precedes e.1 e'.1 := by
    intro e e' he' n hn
    rw [Option.isNone_iff_eq_none.1 (List.mem_filter.1 he').2] at hn
    cases hn
  rw [indexFirst_eq, List.map_append, List.nodup_append] at hnodup
  rw [indexFirst_eq, keys, List.pairwise_map, List.pairwise_append]
  refine ⟨?_, ?_, fun e _ e' he' => hlast he'⟩
  · -- Indexes ascend, and distinct keys have distinct ones.
    have hdistinct := hnodup.1
    rw [List.map_map, List.nodup_iff_pairwise_ne, List.pairwise_map] at hdistinct
    rw [List.pairwise_map]
    refine ((pairwise_sorted_indexed es).and hdistinct).imp_of_mem fun {a b} ha hb hab n hn => ?_
    have hm := index?_of_mem_indexed (List.mem_mergeSort.1 ha)
    have hn' := index?_of_mem_indexed (List.mem_mergeSort.1 hb)
    obtain rfl : b.1 = n := Option.some.inj (hn'.symm.trans hn)
    refine ⟨a.1, hm, Nat.lt_of_le_of_ne hab.1 fun heq => hab.2 ?_⟩
    rw [heq] at hm
    exact (Text.ofNat_of_index? hm).symm.trans (Text.ofNat_of_index? hn')
  · exact List.pairwise_of_forall_mem_list fun e _ e' he' => hlast he'

theorem filter_others_indexFirst (es : Entries α) :
    ((indexFirst es).filter fun e => e.1.index?.isNone) = es.filter fun e => e.1.index?.isNone := by
  have hnone : (((indexed es).mergeSort fun a b => a.1 ≤ b.1).map (·.2)).filter
      (fun e => e.1.index?.isNone) = [] := by
    rw [List.filter_eq_nil_iff]
    intro e he
    obtain ⟨a, ha, rfl⟩ := List.mem_map.1 he
    rw [index?_of_mem_indexed (List.mem_mergeSort.1 ha)]
    exact Bool.false_ne_true
  rw [indexFirst_eq, List.filter_append, hnone, List.nil_append, List.filter_filter]
  simp only [Bool.and_self]

theorem filter_index_append (h : es.Pairwise fun e e' => Text.Precedes e.1 e'.1) :
    (es.filter fun e => e.1.index?.isSome) ++ (es.filter fun e => e.1.index?.isNone) = es := by
  induction es with
  | nil => rfl
  | cons e es ih =>
    obtain ⟨hfirst, hrest⟩ := List.pairwise_cons.1 h
    cases hindex : e.1.index? with
    | some n => simpa [hindex] using ih hrest
    | none =>
      -- Behind a key that is no index there is none.
      have hnone : ∀ e' ∈ es, e'.1.index? = none := by
        intro e' he'
        apply Option.eq_none_iff_forall_ne_some.2
        intro n hn
        obtain ⟨m, hm, -⟩ := hfirst e' he' n hn
        rw [hindex] at hm
        cases hm
      have hsome : (e :: es).filter (fun e => e.1.index?.isSome) = [] := by
        rw [List.filter_eq_nil_iff]
        simpa [hindex] using fun k v he => hnone (k, v) he
      have hall : (e :: es).filter (fun e => e.1.index?.isNone) = e :: es := by
        rw [List.filter_eq_self]
        simpa [hindex] using fun k v he => hnone (k, v) he
      rw [hsome, hall, List.nil_append]

/-- Entries in host order are not moved. -/
theorem indexFirst_of_inHostOrder (h : Text.InHostOrder (keys es)) : indexFirst es = es := by
  have hordered := h.ordered
  rw [keys, List.pairwise_map] at hordered
  have hsorted : (indexed es).Pairwise fun a b => decide (a.1 ≤ b.1) = true := by
    refine List.pairwise_filterMap.2 (hordered.imp ?_)
    intro e e' hprecedes a ha b hb
    obtain ⟨n, hn, rfl⟩ := Option.map_eq_some_iff.1 ha
    obtain ⟨n', hn', rfl⟩ := Option.map_eq_some_iff.1 hb
    obtain ⟨m, hm, hlt⟩ := hprecedes n' hn'
    obtain rfl : n = m := Option.some.inj (hn.symm.trans hm)
    exact decide_eq_true (Nat.le_of_lt hlt)
  rw [indexFirst_eq, List.mergeSort_of_pairwise hsorted, map_snd_indexed]
  exact filter_index_append hordered

/-! ## Host objects -/

theorem nodup_keys_ofHost (pairs : List (Text × α)) : (keys (ofHost pairs)).Nodup :=
  (inHostOrder_indexFirst (nodup_keys_ofList pairs)).nodup

theorem mem_of_mem_ofHost {pairs : List (Text × α)} {e : Text × α} (h : e ∈ ofHost pairs) :
    e ∈ pairs := by
  have hmem : e ∈ ofList pairs := (perm_indexFirst _).mem_iff.1 h
  refine ofList_induction (P := fun es => ∀ e ∈ es, e ∈ pairs) (by simp) ?_ e hmem
  intro es pair hpair hes e he
  rcases mem_of_mem_insert he with hold | rfl
  · exact hes e hold
  · exact hpair

theorem inHostOrder_ofHost (pairs : List (Text × α)) :
    Text.InHostOrder (keys (ofHost pairs)) :=
  inHostOrder_indexFirst (nodup_keys_ofList pairs)

theorem ofHost_of_inHostOrder (h : Text.InHostOrder (keys es)) : ofHost es = es := by
  rw [ofHost, ofList_of_nodup h.nodup, indexFirst_of_inHostOrder h]

theorem hostLists_ofHost (h : (keys es).Nodup) : Text.HostLists (keys es) (keys (ofHost es)) := by
  rw [ofHost, ofList_of_nodup h]
  refine ⟨(perm_indexFirst es).map Prod.fst, inHostOrder_indexFirst h, ?_⟩
  rw [keys, List.filter_map, keys, List.filter_map]
  exact congrArg (List.map Prod.fst) (filter_others_indexFirst es)

/-! ## Changing the values -/

theorem mapValues_mapValues {γ : Type} (f : β → γ) (h : α → β) (es : Entries α) :
    mapValues f (mapValues h es) = mapValues (fun v => f (h v)) es := by
  simp [mapValues]

theorem mapValues_eq_self {f : α → α} (h : ∀ e ∈ es, f e.2 = e.2) : mapValues f es = es := by
  have hid : es.map (fun e => (e.1, f e.2)) = es.map id := by
    apply List.map_congr_left
    intro e he
    rw [h e he]
    rfl
  rw [List.map_id] at hid
  exact hid

/-- Where keys are distinct, what holds of every value and its image holds of whatever a key
    has in the two maps. -/
theorem of_mem_mapValues {es' : Entries α} {f : α → β} {R : α → β → Prop}
    (hnodup : (keys es).Nodup) (hsubset : ∀ e ∈ es', e ∈ es) (hR : ∀ e ∈ es, R e.2 (f e.2))
    (key : Text) (v : α) (w : β) (hv : (key, v) ∈ es) (hw : (key, w) ∈ mapValues f es') :
    R v w := by
  obtain ⟨e, he, heq⟩ := List.mem_map.1 hw
  obtain ⟨rfl, rfl⟩ := Prod.mk.inj heq
  have hmem := hsubset e he
  have hfirst := get?_of_mem hnodup hv
  have hsecond : get? es e.1 = some e.2 := get?_of_mem hnodup hmem
  obtain rfl : v = e.2 := Option.some.inj (hfirst.symm.trans hsecond)
  exact hR e hmem

theorem insert_mapValues (f : α → β) (es : Entries α) (key : Text) (value : α) :
    insert (mapValues f es) key (f value) = mapValues f (insert es key value) := by
  induction es with
  | nil => rfl
  | cons e es ih =>
    obtain ⟨k, v⟩ := e
    by_cases hkey : k = key
    · simp [mapValues, insert, hkey]
    · simpa [mapValues, insert, hkey] using ih

theorem ofList_mapValues (f : α → β) (es : Entries α) :
    ofList (mapValues f es) = mapValues f (ofList es) := by
  have hfold : ∀ entries : Entries α,
      (mapValues f es).foldl (fun es pair => insert es pair.1 pair.2) (mapValues f entries) =
        mapValues f (es.foldl (fun es pair => insert es pair.1 pair.2) entries) := by
    induction es with
    | nil => exact fun entries => rfl
    | cons e es ih =>
      intro entries
      have hstep := ih (insert entries e.1 e.2)
      rw [← insert_mapValues] at hstep
      exact hstep
  exact hfold []

theorem indexFirst_mapValues (f : α → β) (es : Entries α) :
    indexFirst (mapValues f es) = mapValues f (indexFirst es) := by
  have hindexed : indexed (mapValues f es) = (indexed es).map fun a => (a.1, a.2.1, f a.2.2) := by
    simp only [indexed, mapValues, List.filterMap_map, List.map_filterMap, Option.map_map]
    rfl
  have hsort := List.map_mergeSort (l := indexed es) (f := fun a => (a.1, a.2.1, f a.2.2))
    (r := fun a b => a.1 ≤ b.1) (s := fun a b => a.1 ≤ b.1) fun a _ b _ => rfl
  have hothers : ((mapValues f es).filter fun e => e.1.index?.isNone) =
      mapValues f (es.filter fun e => e.1.index?.isNone) := by
    simp only [mapValues, List.filter_map]
    rfl
  rw [indexFirst_eq, indexFirst_eq, hindexed, ← hsort, hothers]
  simp [mapValues]

theorem ofHost_mapValues (f : α → β) (es : Entries α) :
    ofHost (mapValues f es) = mapValues f (ofHost es) := by
  rw [ofHost, ofList_mapValues, indexFirst_mapValues, ofHost]

end Entries

end Reckon
