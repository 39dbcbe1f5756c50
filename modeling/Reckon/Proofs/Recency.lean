-- SUMMARY: The keys of a cache are the latest that were touched: what touching, inserting, storing and dropping do to them.
import Reckon.Cache

/-!
# The latest touched

The keys of a cache are the latest distinct ones that were touched, as many as
fit, with the one touched longest ago in front. Touching a key moves it to the
end, a new key comes in at the end, and if there is no room the first one goes.
Storing and dropping results moves nothing.
-/

namespace Reckon

/-! ## The latest distinct keys -/

/-- The latest `max` distinct keys of those that were touched, the latest first. -/
def Cache.latest (max : Nat) (touched : List Text) : List Text := touched.eraseDups.take max

namespace Cache

variable {α : Type}

theorem filter_eraseDups (p : Text → Bool) (keys : List Text) :
    keys.eraseDups.filter p = (keys.filter p).eraseDups := by
  induction hlength : keys.length using Nat.strongRecOn generalizing keys with
  | ind n ih =>
    cases keys with
    | nil => rfl
    | cons key keys =>
      have hshort : (keys.filter fun other => !other == key).length < n := by
        have hle := List.length_filter_le (fun other => !other == key) keys
        simp only [List.length_cons] at hlength
        omega
      rw [List.eraseDups_cons, List.filter_cons, List.filter_cons, ih _ hshort _ rfl,
        List.filter_filter]
      split
      · rw [List.eraseDups_cons, List.filter_filter]
        simp only [Bool.and_comm]
      next hp =>
        -- What passes the filter differs from the key, which does not.
        have hsame : ∀ other ∈ keys, (p other && !other == key) = p other := by
          intro other _
          cases hother : p other with
          | false => rfl
          | true =>
            have hne : other ≠ key := fun heq => hp (heq ▸ hother)
            simp [hne]
        rw [List.filter_congr hsame]

theorem nodup_eraseDups (keys : List Text) : keys.eraseDups.Nodup := by
  induction keys with
  | nil => exact List.nodup_nil
  | cons key keys ih =>
    rw [List.eraseDups_cons, ← filter_eraseDups]
    refine List.nodup_cons.2 ⟨?_, ih.sublist List.filter_sublist⟩
    simp

/-- The first `max` keys but one are among the first `max + 1` keys. -/
theorem take_erase (max : Nat) (keys : List Text) (key : Text) :
    (keys.erase key).take max = ((keys.take (max + 1)).erase key).take max := by
  induction keys generalizing max with
  | nil => rfl
  | cons first keys ih =>
    by_cases hkey : first = key
    · simp [hkey, List.take_take]
    · have hne : (first == key) = false := beq_false_of_ne hkey
      cases max with
      | zero => rfl
      | succ max =>
        simp only [List.take_succ_cons, List.erase_cons, hne, Bool.false_eq_true, if_false]
        rw [ih max]

section

variable {max : Nat} {touched : List Text} {key : Text}

theorem latest_nil : latest max [] = [] := List.take_nil

theorem nodup_latest : (latest max touched).Nodup :=
  (nodup_eraseDups touched).sublist (List.take_sublist _ _)

theorem length_latest_le : (latest max touched).length ≤ max := by
  simp only [latest, List.length_take]
  omega

/-- A touched key comes first, and the others follow as far as there is room. -/
theorem latest_cons (hmax : 0 < max) :
    latest max (key :: touched) = key :: ((latest max touched).erase key).take (max - 1) := by
  obtain ⟨max, rfl⟩ : ∃ n, max = n + 1 := ⟨max - 1, by omega⟩
  have hfilter : (touched.filter fun other => !other == key).eraseDups =
      touched.eraseDups.erase key := by
    rw [← filter_eraseDups, (nodup_eraseDups touched).erase_eq_filter]
    rfl
  simp only [latest, List.eraseDups_cons, List.take_succ_cons, hfilter, Nat.add_sub_cancel]
  rw [take_erase max]

/-- A key that is there moves to the front. -/
theorem latest_cons_of_mem (h : key ∈ latest max touched) :
    latest max (key :: touched) = key :: (latest max touched).erase key := by
  have hle : (latest max touched).length ≤ max := length_latest_le
  have hpos := List.length_pos_of_mem h
  rw [latest_cons (by omega), List.take_of_length_le]
  rw [List.length_erase_of_mem h]
  omega

/-- A new key drives out the last one if there is no room. -/
theorem latest_cons_of_full (hmax : 0 < max) (h : key ∉ latest max touched)
    (hfull : (latest max touched).length = max) :
    latest max (key :: touched) = key :: (latest max touched).dropLast := by
  rw [latest_cons hmax, List.erase_of_not_mem h, List.dropLast_eq_take, hfull]

theorem latest_cons_of_room (h : key ∉ latest max touched)
    (hroom : (latest max touched).length < max) :
    latest max (key :: touched) = key :: latest max touched := by
  rw [latest_cons (by omega), List.erase_of_not_mem h, List.take_of_length_le (by omega)]

end

theorem reverse_erase_latest {max : Nat} {touched : List Text} {key : Text} :
    ((latest max touched).erase key).reverse = (latest max touched).reverse.erase key := by
  have hreverse : (latest max touched).reverse.Nodup :=
    List.pairwise_reverse.2 (nodup_latest.imp Ne.symm)
  rw [nodup_latest.erase_eq_filter, hreverse.erase_eq_filter, List.filter_reverse]

/-! ## Operations of the cache -/

/-- The keys of the cache are the latest that were touched, the one touched longest ago
    first, and under each stands what is held for it. -/
structure Holds (max : Nat) (touched : List Text) (held : Text → Option (CacheEntry α))
    (c : Cache α) : Prop where
  capacity : c.max = max
  keys : Entries.keys c.entries = (latest max touched).reverse
  get : ∀ key ∈ latest max touched, Entries.get? c.entries key = held key

namespace Holds

variable {max : Nat} {touched : List Text} {held held' : Text → Option (CacheEntry α)}
  {c : Cache α} {key : Text}

theorem mem_keys (h : c.Holds max touched held) :
    key ∈ Entries.keys c.entries ↔ key ∈ latest max touched := by
  rw [h.keys, List.mem_reverse]

theorem nodup_keys (h : c.Holds max touched held) : (Entries.keys c.entries).Nodup := by
  rw [h.keys]
  exact List.pairwise_reverse.2 (nodup_latest.imp Ne.symm)

theorem size (h : c.Holds max touched held) : c.size = (latest max touched).length := by
  have hkeys := congrArg List.length h.keys
  rwa [Entries.keys, List.length_map, List.length_reverse] at hkeys

theorem get? (h : c.Holds max touched held) (key : Text) :
    Entries.get? c.entries key = if key ∈ latest max touched then held key else none := by
  split
  next hkey => exact h.get key hkey
  next hkey => exact Entries.get?_of_not_mem_keys fun hmem => hkey (h.mem_keys.1 hmem)

theorem empty (hmax : c.max = max) (hentries : c.entries = []) : c.Holds max [] held := by
  refine ⟨hmax, ?_, fun key hkey => ?_⟩
  · rw [hentries, latest_nil]
    rfl
  · rw [latest_nil] at hkey
    cases hkey

theorem congr (h : c.Holds max touched held)
    (hheld : ∀ key ∈ latest max touched, held' key = held key) : c.Holds max touched held' :=
  ⟨h.capacity, h.keys, fun key hkey => (h.get key hkey).trans (hheld key hkey).symm⟩

/-- An entry that is appended under a key that no other has is the latest one. -/
theorem append {entries : Entries (CacheEntry α)} {entry : CacheEntry α} (hmax : c.max = max)
    (hkeys : (latest max (key :: touched)).reverse = Entries.keys entries ++ [key])
    (hnew : key ∉ Entries.keys entries) (hentry : held' key = some entry)
    (hget : ∀ other ∈ Entries.keys entries, Entries.get? entries other = held' other) :
    { c with entries := entries ++ [(key, entry)] }.Holds max (key :: touched) held' := by
  refine ⟨hmax, ?_, fun other hother => ?_⟩
  · rw [hkeys, Entries.keys_append]
    rfl
  · rw [← List.mem_reverse, hkeys, List.mem_append, List.mem_singleton] at hother
    rw [Entries.get?_append]
    rcases hother with hmem | rfl
    · obtain ⟨value, hvalue⟩ := Entries.mem_keys_iff.1 hmem
      rw [← hget other hmem, hvalue]
      rfl
    · rw [Entries.get?_of_not_mem_keys hnew, hentry]
      exact if_pos rfl

/-- An entry that is there makes way for one with the same key, which is the latest. -/
theorem replace (h : c.Holds max touched held) (hkey : key ∈ latest max touched)
    {entry : CacheEntry α} (hentry : held' key = some entry)
    (hheld : ∀ other, other ≠ key → held' other = held other) :
    { c with entries := Entries.erase c.entries key ++ [(key, entry)] }.Holds max (key :: touched)
      held' := by
  refine append h.capacity ?_ ?_ hentry fun other hother => ?_
  · rw [latest_cons_of_mem hkey, List.reverse_cons, Entries.keys_erase, h.keys,
      reverse_erase_latest]
  · rw [Entries.keys_erase]
    exact h.nodup_keys.not_mem_erase
  · rw [Entries.keys_erase, h.nodup_keys.mem_erase_iff] at hother
    rw [Entries.get?_erase_of_ne _ (Ne.symm hother.1), h.get other (h.mem_keys.1 hother.2),
      hheld other hother.1]

theorem touch_of_mem (h : c.Holds max touched held) (hkey : key ∈ latest max touched) :
    (c.touch key).2.Holds max (key :: touched) held := by
  obtain ⟨entry, hentry⟩ := Entries.mem_keys_iff.1 (h.mem_keys.2 hkey)
  have htouch : (c.touch key).2 =
      { c with entries := Entries.erase c.entries key ++ [(key, entry)] } := by
    simp only [Cache.touch, hentry]
  rw [htouch]
  exact h.replace hkey ((h.get key hkey).symm.trans hentry) fun _ _ => rfl

theorem touch_of_not_mem (h : c.Holds max touched held) (hkey : key ∉ latest max touched) :
    (c.touch key).2 = c := by
  simp only [Cache.touch, h.get?, if_neg hkey]

/-- Making room takes away the entry that was touched longest ago. -/
theorem keys_evict (h : c.Holds max touched held) (hmax : 0 < max)
    (hkey : key ∉ latest max touched) :
    (latest max (key :: touched)).reverse = Entries.keys c.evict.entries ++ [key] := by
  have hle : (latest max touched).length ≤ max := length_latest_le
  unfold Cache.evict
  rw [h.size, h.capacity]
  split
  next hfull =>
    rw [latest_cons_of_full hmax hkey (by omega), List.reverse_cons, Entries.keys_drop, h.keys,
      List.drop_one, List.tail_reverse]
  next hroom =>
    rw [latest_cons_of_room hkey (by omega), List.reverse_cons, h.keys]

theorem get?_evict (h : c.Holds max touched held) {other : Text}
    (hother : other ∈ Entries.keys c.evict.entries) :
    Entries.get? c.evict.entries other = held other := by
  unfold Cache.evict at hother ⊢
  split
  next hfull =>
    rw [if_pos hfull] at hother
    have hmem : other ∈ Entries.keys c.entries := by
      rw [Entries.keys_drop] at hother
      exact List.mem_of_mem_drop hother
    rw [Entries.get?_drop_one h.nodup_keys hother]
    exact h.get other (h.mem_keys.1 hmem)
  next hroom =>
    rw [if_neg hroom] at hother
    exact h.get other (h.mem_keys.1 hother)

theorem insert (h : c.Holds max touched held) (hmax : 0 < max) (tree : Expr) (compiled : α)
    (hentry : held' tree.key = some { compiled, reads := tree.variableNames })
    (hheld : ∀ other, other ≠ tree.key → held' other = held other) :
    (c.insert tree compiled).Holds max (tree.key :: touched) held' := by
  by_cases hkey : tree.key ∈ latest max touched
  · have hcontains := Entries.contains_iff_mem_keys.2 (h.mem_keys.2 hkey)
    simp only [Cache.insert, hcontains, if_true]
    exact h.replace hkey hentry hheld
  · have hcontains : ¬ Entries.contains c.entries tree.key = true :=
      fun hmem => hkey (h.mem_keys.1 (Entries.contains_iff_mem_keys.1 hmem))
    have hcapacity : c.evict.max = max := by
      rw [← h.capacity]
      unfold Cache.evict
      split <;> rfl
    have hkeys := h.keys_evict hmax hkey
    have hnew : tree.key ∉ Entries.keys c.evict.entries := by
      have hreverse : (latest max (tree.key :: touched)).reverse.Nodup :=
        List.pairwise_reverse.2 (nodup_latest.imp Ne.symm)
      rw [hkeys] at hreverse
      exact fun hmem => (List.nodup_append.1 hreverse).2.2 _ hmem _ (List.mem_singleton.2 rfl) rfl
    simp only [Cache.insert, if_neg hcontains]
    refine append hcapacity hkeys hnew hentry fun other hother => ?_
    have hne : other ≠ tree.key := fun heq => hnew (heq ▸ hother)
    rw [h.get?_evict hother, hheld other hne]

theorem mapValues (h : c.Holds max touched held) (f : CacheEntry α → CacheEntry α) :
    { c with entries := Entries.mapValues f c.entries }.Holds max touched
      fun key => (held key).map f := by
  refine ⟨h.capacity, ?_, fun key hkey => ?_⟩
  · rw [Entries.keys_mapValues, h.keys]
  · rw [Entries.get?_mapValues, h.get key hkey]

theorem storeResult (h : c.Holds max touched held) (tree : Expr) (v : Value) :
    (c.storeResult tree v).Holds max touched fun key =>
      if tree.key = key then (held key).map fun entry => { entry with result := some v }
      else held key := by
  by_cases hkey : tree.key ∈ latest max touched
  · obtain ⟨entry, hentry⟩ := Entries.mem_keys_iff.1 (h.mem_keys.2 hkey)
    simp only [Cache.storeResult, hentry]
    refine ⟨h.capacity, ?_, fun other hother => ?_⟩
    · rw [Entries.keys_insert_of_mem (h.mem_keys.2 hkey), h.keys]
    · rw [Entries.get?_insert]
      split
      next heq => rw [← heq, ← h.get tree.key hkey, hentry, Option.map_some]
      next => exact h.get other hother
  · simp only [Cache.storeResult, h.get?, if_neg hkey]
    refine h.congr fun other hother => if_neg ?_
    rintro rfl
    exact hkey hother

end Holds

theorem lookup_eq (c : Cache α) (tree : Expr) :
    c.lookup tree =
      match Entries.get? c.entries tree.key with
      | some entry => (some entry.compiled, { (c.touch tree.key).2 with hits := c.hits + 1 })
      | none => (none, { c with misses := c.misses + 1 }) := by
  unfold lookup touch
  cases Entries.get? c.entries tree.key <;> rfl

theorem result?_eq (c : Cache α) (tree : Expr) :
    c.result? tree =
      ((Entries.get? c.entries tree.key).bind (·.result), (c.touch tree.key).2) := by
  unfold result? touch
  cases Entries.get? c.entries tree.key <;> rfl

theorem touch_counts (c : Cache α) (key : Text) :
    (c.touch key).2.hits = c.hits ∧ (c.touch key).2.misses = c.misses ∧
      (c.touch key).2.evictions = c.evictions := by
  unfold touch
  cases Entries.get? c.entries key <;> exact ⟨rfl, rfl, rfl⟩

theorem storeResult_counts (c : Cache α) (tree : Expr) (v : Value) :
    (c.storeResult tree v).hits = c.hits ∧ (c.storeResult tree v).misses = c.misses ∧
      (c.storeResult tree v).evictions = c.evictions := by
  simp only [storeResult]
  cases Entries.get? c.entries tree.key <;> exact ⟨rfl, rfl, rfl⟩

/-- Inserting counts an eviction if the key is new and the cache full, and nothing else. -/
theorem insert_counts (c : Cache α) (tree : Expr) (compiled : α) :
    (c.insert tree compiled).hits = c.hits ∧ (c.insert tree compiled).misses = c.misses ∧
      (c.insert tree compiled).evictions = c.evictions +
        if tree.key ∉ Entries.keys c.entries ∧ c.max ≤ c.size then 1 else 0 := by
  by_cases hkey : tree.key ∈ Entries.keys c.entries
  · simp [insert, Entries.contains_iff_mem_keys.2 hkey, hkey]
  · have hcontains : ¬ Entries.contains c.entries tree.key = true :=
      fun hmem => hkey (Entries.contains_iff_mem_keys.1 hmem)
    by_cases hfull : c.max ≤ c.size <;> simp [insert, hcontains, evict, hfull, hkey]

end Cache

end Reckon
