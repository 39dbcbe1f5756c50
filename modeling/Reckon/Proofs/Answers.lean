-- SUMMARY: What a cache holds and answers is read off the calls that were made of it.
import Reckon.Proofs.Recency
import Reckon.Proofs.Sharing

/-!
# What a cache answers

What a cache holds can be read off the calls that were made of it. Its keys are
the latest distinct ones that were touched since it was cleared, as many as fit.
Under each key stand what was inserted last and the result that was stored since
and not dropped. Every call answers accordingly, and the counts are those of the
calls since they were reset.
-/

namespace Reckon

variable {α : Type}

/-! ## Calls -/

/-- A call of a cache. -/
inductive CacheCall (α : Type) where
  | lookup (tree : Expr)
  | has (tree : Expr)
  | insert (tree : Expr) (compiled : α)
  | dependencies (tree : Expr)
  | result (tree : Expr)
  | storeResult (tree : Expr) (v : Value)
  | invalidate (name : Text)
  | invalidateAll
  | clear
  | resetCounts

/-- What a call answers. -/
inductive CacheAnswer (α : Type) where
  | nothing
  | compiled (found : Option α)
  | present (yes : Bool)
  | names (found : Option (List Text))
  | result (found : Option Value)
  | dropped (count : Nat)

def CacheCall.perform (c : Cache α) : CacheCall α → CacheAnswer α × Cache α
  | .lookup tree => (.compiled (c.lookup tree).1, (c.lookup tree).2)
  | .has tree => (.present (c.has tree), c)
  | .insert tree compiled => (.nothing, c.insert tree compiled)
  | .dependencies tree => (.names (c.dependencies? tree), c)
  | .result tree => (.result (c.result? tree).1, (c.result? tree).2)
  | .storeResult tree v => (.nothing, c.storeResult tree v)
  | .invalidate name => (.dropped (c.invalidate name).1, (c.invalidate name).2)
  | .invalidateAll => (.nothing, c.invalidateAll)
  | .clear => (.nothing, c.clear)
  | .resetCounts => (.nothing, c.resetCounts)

/-- The call leaves every key and what was compiled for it in its place. -/
def CacheCall.isPassive : CacheCall α → Bool
  | .has _ | .dependencies _ | .storeResult _ _ | .invalidate _ | .invalidateAll => true
  | _ => false

/-- Calls of a cache, the latest first. -/
abbrev CachePast (α : Type) := List (CacheCall α)

namespace CachePast

/-- The cache of at most `max` entries after the calls. -/
def cache (max : Nat) : CachePast α → Cache α
  | [] => { max }
  | call :: past => (call.perform (cache max past)).2

/-- The keys that were touched since the cache was cleared, the latest first. To insert
    is to touch; to look for a key is to touch it if it is there. -/
def touches (max : Nat) : CachePast α → List Text
  | [] => []
  | .insert tree _ :: past => tree.key :: touches max past
  | .lookup tree :: past | .result tree :: past =>
    if tree.key ∈ Cache.latest max (touches max past) then tree.key :: touches max past
    else touches max past
  | .clear :: _ => []
  | _ :: past => touches max past

/-- The keys that are in the cache, the latest touched first. -/
def recent (max : Nat) (past : CachePast α) : List Text := Cache.latest max (touches max past)

/-- The tree that was inserted last under a key since the cache was cleared, and what was
    compiled for it. -/
def inserted? (key : Text) : CachePast α → Option (Expr × α)
  | [] => none
  | .insert tree compiled :: past =>
    if tree.key = key then some (tree, compiled) else inserted? key past
  | .clear :: _ => none
  | _ :: past => inserted? key past

/-- The tree under the key names the variable. -/
def reads (past : CachePast α) (key name : Text) : Bool :=
  (inserted? key past).any fun (tree, _) => name ∈ tree.variableNames

/-- The result that was stored last under a key, unless the key was inserted since or the
    result was dropped. -/
def stored? (key : Text) : CachePast α → Option Value
  | [] => none
  | .storeResult tree v :: past => if tree.key = key then some v else stored? key past
  | .insert tree _ :: past => if tree.key = key then none else stored? key past
  | .invalidate name :: past => if reads past key name then none else stored? key past
  | .invalidateAll :: _ => none
  | .clear :: _ => none
  | _ :: past => stored? key past

/-- The lookups since the counts were reset. -/
def lookups : CachePast α → Nat
  | [] => 0
  | .lookup _ :: past => lookups past + 1
  | .resetCounts :: _ => 0
  | _ :: past => lookups past

/-- Those of them that found their key. -/
def hits (max : Nat) : CachePast α → Nat
  | [] => 0
  | .lookup tree :: past => hits max past + if tree.key ∈ recent max past then 1 else 0
  | .resetCounts :: _ => 0
  | _ :: past => hits max past

/-- Inserting the tree drives out another one: its key is new, and the cache is full. -/
def Evicts (max : Nat) (past : CachePast α) (tree : Expr) : Prop :=
  tree.key ∉ recent max past ∧ (recent max past).length = max

instance (max : Nat) (past : CachePast α) (tree : Expr) : Decidable (Evicts max past tree) :=
  inferInstanceAs (Decidable (_ ∧ _))

/-- The inserts since the counts were reset that drove out an entry. -/
def evictions (max : Nat) : CachePast α → Nat
  | [] => 0
  | .insert tree _ :: past => evictions max past + if Evicts max past tree then 1 else 0
  | .resetCounts :: _ => 0
  | _ :: past => evictions max past

end CachePast

open CachePast in
/-- What a call has to answer after the calls before it. -/
def CacheCall.expected (max : Nat) (past : CachePast α) : CacheCall α → CacheAnswer α
  | .lookup tree => .compiled <|
    if tree.key ∈ recent max past then (inserted? tree.key past).map (·.2) else none
  | .has tree => .present (tree.key ∈ recent max past)
  | .dependencies tree => .names <|
    if tree.key ∈ recent max past then some tree.variableNames else none
  | .result tree => .result (if tree.key ∈ recent max past then stored? tree.key past else none)
  | .invalidate name => .dropped <|
    (recent max past).countP fun key => (stored? key past).isSome && reads past key name
  | _ => .nothing

/-! ## What is held -/

namespace CachePast

/-- What the cache holds under a key that is in it. -/
def held (past : CachePast α) (key : Text) : Option (CacheEntry α) :=
  (inserted? key past).map fun (tree, compiled) =>
    { compiled, reads := tree.variableNames, result := stored? key past }

section

variable (past : CachePast α) (key : Text)

theorem touches_lookup (max : Nat) (tree : Expr) :
    touches max (.lookup tree :: past) =
      if tree.key ∈ recent max past then tree.key :: touches max past else touches max past := rfl

theorem touches_result (max : Nat) (tree : Expr) :
    touches max (.result tree :: past) =
      if tree.key ∈ recent max past then tree.key :: touches max past else touches max past := rfl

theorem held_insert (tree : Expr) (compiled : α) :
    held (.insert tree compiled :: past) key =
      if tree.key = key then some { compiled, reads := tree.variableNames }
      else held past key := by
  simp only [held, inserted?, stored?]
  split <;> rfl

theorem held_storeResult (tree : Expr) (v : Value) :
    held (.storeResult tree v :: past) key =
      if tree.key = key then (held past key).map fun entry => { entry with result := some v }
      else held past key := by
  simp only [held, inserted?, stored?]
  split
  · cases inserted? key past <;> rfl
  · rfl

theorem held_invalidate (name : Text) :
    held (.invalidate name :: past) key =
      (held past key).map fun entry =>
        if entry.dependsOn name then { entry with result := none } else entry := by
  rcases Option.eq_none_or_eq_some (inserted? key past) with hnone | ⟨⟨tree, compiled⟩, hfound⟩
  · simp only [held, inserted?, hnone, Option.map_none]
  · by_cases hreads : name ∈ tree.variableNames
    · cases hstored : stored? key past <;>
        simp [held, inserted?, stored?, reads, hfound, CacheEntry.dependsOn, hreads, hstored]
    · simp [held, inserted?, stored?, reads, hfound, CacheEntry.dependsOn, hreads]

theorem held_invalidateAll :
    held (.invalidateAll :: past) key =
      (held past key).map fun entry => { entry with result := none } := by
  simp only [held, inserted?, stored?]
  cases inserted? key past <;> rfl

theorem key_of_inserted? {tree : Expr} {compiled : α}
    (h : inserted? key past = some (tree, compiled)) : tree.key = key := by
  induction past with
  | nil => cases h
  | cons call past ih =>
    cases call with
    | insert tree' compiled' =>
      simp only [inserted?] at h
      split at h
      next hkey =>
        cases h
        exact hkey
      next => exact ih h
    | clear => cases h
    | _ => exact ih h

end

end CachePast

/-! ## Runs of calls -/

open CachePast

/-- The cache is what the calls have made of it. -/
structure Cache.Follows (max : Nat) (past : CachePast α) (c : Cache α) : Prop where
  holds : c.Holds max (touches max past) (held past)
  hits : c.hits = past.hits max
  lookups : c.hits + c.misses = past.lookups
  evictions : c.evictions = past.evictions max

namespace Cache.Follows

variable {max : Nat} {past : CachePast α} {c : Cache α}

theorem mem_keys (h : c.Follows max past) {key : Text} :
    key ∈ Entries.keys c.entries ↔ key ∈ recent max past := h.holds.mem_keys

theorem get? (h : c.Follows max past) (key : Text) :
    Entries.get? c.entries key = if key ∈ recent max past then held past key else none :=
  h.holds.get? key

theorem lookup (h : c.Follows max past) (tree : Expr) :
    (c.lookup tree).2.Follows max (.lookup tree :: past) := by
  have hheld : held (.lookup tree :: past) = held past := rfl
  rw [lookup_eq]
  by_cases hkey : tree.key ∈ recent max past
  · obtain ⟨entry, hentry⟩ := Entries.mem_keys_iff.1 (h.mem_keys.2 hkey)
    obtain ⟨-, hmisses, hevictions⟩ := c.touch_counts tree.key
    have hholds := h.holds.touch_of_mem hkey
    rw [hentry]
    refine ⟨?_, ?_, ?_, hevictions.trans h.evictions⟩
    · rw [hheld, touches_lookup, if_pos hkey]
      exact ⟨hholds.capacity, hholds.keys, hholds.get⟩
    · rw [CachePast.hits, if_pos hkey, ← h.hits]
    · dsimp only
      rw [CachePast.lookups, ← h.lookups, hmisses, Nat.add_right_comm]
  · rw [h.get?, if_neg hkey]
    refine ⟨?_, ?_, ?_, h.evictions⟩
    · rw [hheld, touches_lookup, if_neg hkey]
      exact ⟨h.holds.capacity, h.holds.keys, h.holds.get⟩
    · rw [CachePast.hits, if_neg hkey]
      exact h.hits
    · rw [CachePast.lookups, ← h.lookups, Nat.add_assoc]

theorem result (h : c.Follows max past) (tree : Expr) :
    (c.result? tree).2.Follows max (.result tree :: past) := by
  have hheld : held (.result tree :: past) = held past := rfl
  obtain ⟨hhits, hmisses, hevictions⟩ := c.touch_counts tree.key
  rw [result?_eq]
  refine ⟨?_, hhits.trans h.hits, ?_, hevictions.trans h.evictions⟩
  · rw [hheld, touches_result]
    split
    next hkey => exact h.holds.touch_of_mem hkey
    next hkey =>
      rw [h.holds.touch_of_not_mem hkey]
      exact h.holds
  · rw [hhits, hmisses]
    exact h.lookups

theorem insert (h : c.Follows max past) (hmax : 0 < max) (tree : Expr) (compiled : α) :
    (c.insert tree compiled).Follows max (.insert tree compiled :: past) := by
  have hholds := h.holds.insert hmax tree compiled
    ((held_insert past tree.key tree compiled).trans (if_pos rfl))
    fun other hother => (held_insert past other tree compiled).trans (if_neg (Ne.symm hother))
  have hevicts : tree.key ∉ Entries.keys c.entries ∧ c.max ≤ c.size ↔ Evicts max past tree := by
    have hle : (recent max past).length ≤ max := length_latest_le
    rw [h.mem_keys, h.holds.capacity, h.holds.size]
    exact and_congr_right fun _ => ⟨fun hfull => Nat.le_antisymm hle hfull, Nat.le_of_eq ∘ Eq.symm⟩
  obtain ⟨hhits, hmisses, hevictions⟩ := c.insert_counts tree compiled
  refine ⟨hholds, hhits.trans h.hits, ?_, ?_⟩
  · rw [hhits, hmisses]
    exact h.lookups
  · simp only [hevictions, hevicts, CachePast.evictions, h.evictions]

/-- What a call does to the cache is what its place among the calls says. -/
theorem step (h : c.Follows max past) (hmax : 0 < max) (call : CacheCall α) :
    (call.perform c).2.Follows max (call :: past) := by
  cases call with
  | lookup tree => exact h.lookup tree
  | has tree => exact ⟨h.holds, h.hits, h.lookups, h.evictions⟩
  | insert tree compiled => exact h.insert hmax tree compiled
  | dependencies tree => exact ⟨h.holds, h.hits, h.lookups, h.evictions⟩
  | result tree => exact h.result tree
  | storeResult tree v =>
    obtain ⟨hhits, hmisses, hevictions⟩ := c.storeResult_counts tree v
    refine ⟨?_, hhits.trans h.hits, ?_, hevictions.trans h.evictions⟩
    · exact (h.holds.storeResult tree v).congr fun key _ => held_storeResult past key tree v
    · rw [CacheCall.perform, hhits, hmisses]
      exact h.lookups
  | invalidate name =>
    refine ⟨?_, h.hits, h.lookups, h.evictions⟩
    exact (h.holds.mapValues _).congr fun key _ => held_invalidate past key name
  | invalidateAll =>
    refine ⟨?_, h.hits, h.lookups, h.evictions⟩
    exact (h.holds.mapValues _).congr fun key _ => held_invalidateAll past key
  | clear => exact ⟨.empty h.holds.capacity rfl, h.hits, h.lookups, h.evictions⟩
  | resetCounts => exact ⟨⟨h.holds.capacity, h.holds.keys, h.holds.get⟩, rfl, rfl, rfl⟩

/-! ## Answers -/

/-- A key that is in the cache was inserted. -/
theorem inserted (h : c.Follows max past) {key : Text} (hkey : key ∈ recent max past) :
    ∃ tree compiled, tree.key = key ∧ inserted? key past = some (tree, compiled) := by
  obtain ⟨entry, hentry⟩ := Entries.mem_keys_iff.1 (h.mem_keys.2 hkey)
  rw [h.get?, if_pos hkey] at hentry
  obtain ⟨⟨tree, compiled⟩, hfound, -⟩ := Option.map_eq_some_iff.1 hentry
  exact ⟨tree, compiled, key_of_inserted? past key hfound, hfound⟩

theorem reads (h : c.Follows max past) {tree : Expr} (hkey : tree.key ∈ recent max past)
    (name : Text) : past.reads tree.key name = decide (name ∈ tree.variableNames) := by
  obtain ⟨tree', compiled, hsame, hfound⟩ := h.inserted hkey
  simp only [CachePast.reads, hfound, Option.any_some, Expr.variableNames_of_key_eq hsame]

theorem lookup_fst (h : c.Follows max past) (tree : Expr) :
    (c.lookup tree).1 =
      if tree.key ∈ recent max past then (inserted? tree.key past).map (·.2) else none := by
  have hlookup : (c.lookup tree).1 = (Entries.get? c.entries tree.key).map (·.compiled) := by
    rw [lookup_eq]
    cases Entries.get? c.entries tree.key <;> rfl
  rw [hlookup, h.get?]
  split
  · rw [held, Option.map_map]
    rfl
  · rfl

theorem dependencies?_eq (h : c.Follows max past) (tree : Expr) :
    c.dependencies? tree =
      if tree.key ∈ recent max past then some tree.variableNames else none := by
  rw [dependencies?, h.get?]
  split
  next hkey =>
    obtain ⟨tree', compiled, hsame, hfound⟩ := h.inserted hkey
    simp only [held, hfound, Option.map_some, Expr.variableNames_of_key_eq hsame]
  next => rfl

theorem result?_fst (h : c.Follows max past) (tree : Expr) :
    (c.result? tree).1 =
      if tree.key ∈ recent max past then stored? tree.key past else none := by
  rw [result?_eq, h.get?]
  dsimp only
  split
  next hkey =>
    obtain ⟨tree', compiled, -, hfound⟩ := h.inserted hkey
    simp only [held, hfound, Option.map_some, Option.bind_some]
  next => rfl

theorem invalidate_fst (h : c.Follows max past) (name : Text) :
    (c.invalidate name).1 =
      (recent max past).countP fun key => (stored? key past).isSome && past.reads key name := by
  have hkeys : recent max past = (Entries.keys c.entries).reverse := by
    rw [h.holds.keys, List.reverse_reverse]
    rfl
  rw [hkeys, List.countP_reverse, Entries.keys, List.countP_map]
  refine List.countP_congr fun keyed hmem => ?_
  obtain ⟨key, entry⟩ := keyed
  have hkey : key ∈ recent max past := h.mem_keys.1 (List.mem_map_of_mem hmem)
  obtain ⟨tree, compiled, -, hfound⟩ := h.inserted hkey
  have hentry := Entries.get?_of_mem h.holds.nodup_keys hmem
  rw [h.get?, if_pos hkey, held, hfound] at hentry
  cases hentry
  simp [CacheEntry.dependsOn, CachePast.reads, hfound]

/-- Every call answers what the calls before it say. -/
theorem answer (h : c.Follows max past) (call : CacheCall α) :
    (call.perform c).1 = call.expected max past := by
  cases call with
  | lookup tree => exact congrArg CacheAnswer.compiled (h.lookup_fst tree)
  | has tree =>
    have hhas : c.has tree = decide (tree.key ∈ recent max past) := by
      rw [Bool.eq_iff_iff, decide_eq_true_iff, ← h.mem_keys]
      exact Entries.contains_iff_mem_keys
    exact congrArg CacheAnswer.present hhas
  | dependencies tree => exact congrArg CacheAnswer.names (h.dependencies?_eq tree)
  | result tree => exact congrArg CacheAnswer.result (h.result?_fst tree)
  | invalidate name => exact congrArg CacheAnswer.dropped (h.invalidate_fst name)
  | _ => rfl

/-- Dropping what depends on a variable leaves the other results. -/
theorem result?_invalidate (h : c.Follows max past) (hmax : 0 < max) (name : Text) (tree : Expr) :
    ((c.invalidate name).2.result? tree).1 =
      if name ∈ tree.variableNames then none else (c.result? tree).1 := by
  have hnext : (c.invalidate name).2.Follows max (.invalidate name :: past) :=
    h.step hmax (.invalidate name)
  have hrecent : recent max (.invalidate name :: past) = recent max past := rfl
  rw [hnext.result?_fst, h.result?_fst, hrecent]
  by_cases hkey : tree.key ∈ recent max past
  · simp only [if_pos hkey, stored?, h.reads hkey, decide_eq_true_eq]
  · simp only [if_neg hkey, ite_self]

end Cache.Follows

/-- Calls that neither insert nor look leave the keys in their places, and what was compiled
    for them. -/
theorem CacheCall.compiled_of_isPassive {call : CacheCall α} (h : call.isPassive = true)
    (c : Cache α) :
    Entries.mapValues (·.compiled) (call.perform c).2.entries =
      Entries.mapValues (·.compiled) c.entries := by
  cases call with
  | has tree => rfl
  | dependencies tree => rfl
  | storeResult tree v =>
    simp only [perform, Cache.storeResult]
    cases hget : Entries.get? c.entries tree.key with
    | none => rfl
    | some entry => exact Entries.mapValues_insert_of_get? hget rfl
  | invalidate name =>
    simp only [perform, Cache.invalidate, Entries.mapValues, List.map_map]
    refine List.map_congr_left fun keyed _ => ?_
    dsimp only [Function.comp]
    split <;> rfl
  | invalidateAll =>
    simp only [perform, Cache.invalidateAll, Entries.mapValues, List.map_map]
    rfl
  | lookup tree => cases h
  | insert tree compiled => cases h
  | result tree => cases h
  | clear => cases h
  | resetCounts => cases h

namespace CachePast

theorem follows_cache {max : Nat} (hmax : 0 < max) (past : CachePast α) :
    (past.cache max).Follows max past := by
  induction past with
  | nil => exact ⟨.empty rfl rfl, rfl, rfl, rfl⟩
  | cons call past ih => exact ih.step hmax call

end CachePast

/-- The cache works as the map of the latest touched keys that has seen the calls. -/
structure Cache.Refines (max : Nat) (past : CachePast α) (c : Cache α) : Prop where
  size_le : c.size ≤ max
  /-- The keys are the latest distinct ones that were touched, in this order. -/
  keys : Entries.keys c.entries = (recent max past).reverse
  answers : ∀ call : CacheCall α, (call.perform c).1 = call.expected max past
  /-- A key that is there moves to the end. -/
  replaces : ∀ tree compiled, tree.key ∈ recent max past →
    Entries.keys (c.insert tree compiled).entries =
      (Entries.keys c.entries).erase tree.key ++ [tree.key]
  /-- A new key in a full cache takes the place of the one touched longest ago. -/
  evicts : ∀ tree compiled, Evicts max past tree →
    Entries.keys (c.insert tree compiled).entries = (Entries.keys c.entries).tail ++ [tree.key]
  grows : ∀ tree compiled, tree.key ∉ recent max past → ¬ Evicts max past tree →
    Entries.keys (c.insert tree compiled).entries = Entries.keys c.entries ++ [tree.key]
  /-- Calls that neither insert nor look change no place and nothing that was compiled. -/
  passive : ∀ call : CacheCall α, call.isPassive = true →
    Entries.mapValues (·.compiled) (call.perform c).2.entries =
      Entries.mapValues (·.compiled) c.entries
  /-- A written variable takes away the results of exactly the trees that name it. -/
  invalidates : ∀ name tree, ((c.invalidate name).2.result? tree).1 =
    if name ∈ tree.variableNames then none else (c.result? tree).1
  hits : c.hits = past.hits max
  lookups : c.hits + c.misses = past.lookups
  evictions : c.evictions = past.evictions max

/-- After any calls, the cache is what they say. -/
theorem CachePast.cache_refines {max : Nat} (hmax : 0 < max) (past : CachePast α) :
    (past.cache max).Refines max past := by
  have h := follows_cache hmax past
  have hle : (recent max past).length ≤ max := Cache.length_latest_le
  have hinsert : ∀ tree compiled, Entries.keys ((past.cache max).insert tree compiled).entries =
      (Cache.latest max (tree.key :: touches max past)).reverse :=
    fun tree compiled => (h.insert hmax tree compiled).holds.keys
  refine ⟨?_, h.holds.keys, h.answer, fun tree compiled hkey => ?_,
    fun tree compiled hevicts => ?_, fun tree compiled hkey hroom => ?_,
    fun call hpassive => call.compiled_of_isPassive hpassive _, h.result?_invalidate hmax,
    h.hits, h.lookups, h.evictions⟩
  · rw [h.holds.size]
    exact hle
  · rw [hinsert, Cache.latest_cons_of_mem hkey, List.reverse_cons, Cache.reverse_erase_latest,
      h.holds.keys]
  · rw [hinsert, Cache.latest_cons_of_full hmax hevicts.1 hevicts.2, List.reverse_cons,
      h.holds.keys, List.tail_reverse]
  · have hlt : (recent max past).length < max :=
      Nat.lt_of_le_of_ne hle fun hfull => hroom ⟨hkey, hfull⟩
    rw [hinsert, Cache.latest_cons_of_room hkey hlt, List.reverse_cons, h.holds.keys]

/-- In a cache of two, `c` drives out `b`, as `a` was looked up after it. -/
theorem CachePast.cache_of_two :
    let past : CachePast Nat := [.insert (.var "c") 3, .lookup (.var "a"),
      .storeResult (.var "a") .null, .insert (.var "b") 2, .insert (.var "a") 1]
    Entries.keys (past.cache 2).entries = [(Expr.var "a").key, (Expr.var "c").key] ∧
      ((past.cache 2).lookup (.var "a")).1 = some 1 ∧ (past.cache 2).has (.var "b") = false ∧
      ((past.cache 2).invalidate "a").1 = 1 ∧ (past.cache 2).evictions = 1 := by
  intro past
  have h := cache_refines (by decide : 0 < 2) past
  refine ⟨h.keys.trans (by decide), ?_, ?_, ?_, h.evictions.trans (by decide)⟩
  · exact (CacheAnswer.compiled.inj (h.answers (.lookup (.var "a")))).trans (by decide)
  · exact (CacheAnswer.present.inj (h.answers (.has (.var "b")))).trans (by decide)
  · exact (CacheAnswer.dropped.inj (h.answers (.invalidate "a"))).trans (by decide)

end Reckon