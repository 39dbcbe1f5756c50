-- SUMMARY: An object is a map in insertion order: what it holds is read off what has happened to it since it was empty.
import Reckon.Proofs.HostOrder
import Reckon.Value.Owned

/-!
# Lifetimes of objects

An object starts empty. Its owner sets and deletes keys, clones it and releases
it. What it holds can be read off the calls that were made of it: a key has the
value that was set last, unless the key was deleted or the object emptied since.
The keys stand in the order in which they last became present, so overwriting a
key keeps its place, and deleting and setting it moves it to the end. Only the
first release empties an object. A clone has the same entries and the same past,
but has not been released itself.
-/

namespace Reckon

namespace Entries

variable {α : Type} {es : Entries α} {key : Text}

theorem get?_erase_self (hnodup : (keys es).Nodup) : get? (erase es key) key = none := by
  apply get?_of_not_mem_keys
  rw [keys_erase]
  exact hnodup.not_mem_erase

end Entries

/-! ## Calls -/

/-- A call of an object. -/
inductive ObjectCall where
  | set (key : Text) (v : Value)
  | delete (key : Text)
  | clone
  | release

/-- The object after a call. After `clone` it is the clone. -/
def ObjectCall.perform : ObjectCall → Owned → Owned
  | .set key v, o => o.set key v
  | .delete key, o => (o.delete key).2
  | .clone, o => o.copy
  | .release, o => o.release

/-- The calls that were made of an object, the latest first. Those before a clone was made
    were made of the object that was cloned. -/
abbrev ObjectPast := List ObjectCall

namespace ObjectPast

/-- The object after the calls. It was empty before them. -/
def object : ObjectPast → Owned
  | [] => { value := .object [] }
  | call :: past => call.perform (object past)

/-- The object has been released itself. -/
def released : ObjectPast → Bool
  | [] => false
  | .release :: _ => true
  | .clone :: _ => false
  | _ :: past => released past

/-- The value that was set last under the key, unless the key was deleted since or the object
    was emptied by its first release. -/
def written? (key : Text) : ObjectPast → Option Value
  | [] => none
  | .set k v :: past => if k = key then some v else written? key past
  | .delete k :: past => if k = key then none else written? key past
  | .clone :: past => written? key past
  | .release :: past => if released past then written? key past else none

/-- When the key became present, if it is: how many calls there were before the call that
    set it while it was absent, after which it was not removed. -/
def since? (key : Text) : ObjectPast → Option Nat
  | [] => none
  | .set k _ :: past =>
    if k = key ∧ (written? key past).isNone then some past.length else since? key past
  | .delete k :: past => if k = key then none else since? key past
  | .clone :: past => since? key past
  | .release :: past => if released past then since? key past else none

/-- The first key became present before the second. -/
def Before (past : ObjectPast) (key key' : Text) : Prop :=
  ∃ m n, past.since? key = some m ∧ past.since? key' = some n ∧ m < n

section

variable {past : ObjectPast} {key : Text}

theorem since?_lt {n : Nat} (h : past.since? key = some n) : n < past.length := by
  induction past with
  | nil => cases h
  | cons call past ih =>
    have hrest : since? key past = some n → n < (call :: past).length :=
      fun h => Nat.lt_succ_of_lt (ih h)
    cases call with
    | set k v =>
      simp only [since?] at h
      split at h
      · cases h
        exact Nat.lt_succ_self _
      · exact hrest h
    | delete k =>
      simp only [since?] at h
      split at h
      · cases h
      · exact hrest h
    | clone => exact hrest h
    | release =>
      simp only [since?] at h
      split at h
      · exact hrest h
      · cases h

/-- A key is present exactly if there is a value under it. -/
theorem isSome_since? : (past.since? key).isSome = (past.written? key).isSome := by
  induction past with
  | nil => rfl
  | cons call past ih =>
    cases call with
    | set k v =>
      simp only [since?, written?]
      by_cases hkey : k = key
      · cases hwritten : written? key past with
        | none => simp [hkey]
        | some w => simpa [hkey, hwritten] using ih
      · simpa [hkey] using ih
    | delete k =>
      simp only [since?, written?]
      split
      · rfl
      · exact ih
    | clone => exact ih
    | release =>
      simp only [since?, written?]
      split
      · exact ih
      · rfl

theorem Before.irrefl : ¬ past.Before key key := by
  rintro ⟨m, n, hm, hn, hlt⟩
  have hsame : m = n := Option.some.inj (hm.symm.trans hn)
  omega

/-- The order of keys only depends on when each of them became present. -/
theorem pairwise_before_of_since? {past' : ObjectPast} {keys : List Text}
    (h : keys.Pairwise past.Before) (hsince : ∀ key ∈ keys, past'.since? key = past.since? key) :
    keys.Pairwise past'.Before := by
  refine h.imp_of_mem ?_
  rintro key key' hmem hmem' ⟨m, n, hm, hn, hlt⟩
  exact ⟨m, n, (hsince key hmem).trans hm, (hsince key' hmem').trans hn, hlt⟩

end

end ObjectPast

/-! ## Runs of calls -/

/-- The entries are what the past has made of an empty object. -/
structure ObjectPast.Holds (past : ObjectPast) (es : Entries Value) : Prop where
  get : ∀ key, Entries.get? es key = past.written? key
  ordered : (Entries.keys es).Pairwise past.Before

namespace ObjectPast.Holds

variable {past : ObjectPast} {es : Entries Value}

theorem mem_keys (h : past.Holds es) {key : Text} :
    key ∈ Entries.keys es ↔ (past.written? key).isSome = true := by
  rw [← h.get, Option.isSome_iff_exists]
  exact Entries.mem_keys_iff

theorem nodup_keys (h : past.Holds es) : (Entries.keys es).Nodup := by
  refine h.ordered.imp ?_
  rintro key _ hbefore rfl
  exact Before.irrefl hbefore

theorem set (h : past.Holds es) (key : Text) (v : Value) :
    Holds (.set key v :: past) (Entries.insert es key v) := by
  refine ⟨fun name => ?_, ?_⟩
  · rw [Entries.get?_insert, h.get, written?]
  · by_cases hkey : key ∈ Entries.keys es
    · rw [Entries.keys_insert_of_mem hkey]
      refine pairwise_before_of_since? h.ordered fun name _ => if_neg ?_
      rintro ⟨rfl, hnone⟩
      rw [Option.isNone_iff_eq_none] at hnone
      rw [h.mem_keys, hnone] at hkey
      cases hkey
    · -- The new key is the latest to become present.
      have hnone : written? key past = none := by
        rw [← h.get]
        exact Entries.get?_of_not_mem_keys hkey
      have hnew : since? key (.set key v :: past) = some past.length :=
        if_pos ⟨rfl, Option.isNone_iff_eq_none.2 hnone⟩
      have hold : ∀ name ∈ Entries.keys es,
          since? name (.set key v :: past) = past.since? name := by
        intro name hmem
        refine if_neg ?_
        rintro ⟨rfl, -⟩
        exact hkey hmem
      rw [Entries.keys_insert_of_not_mem hkey]
      refine List.pairwise_append.2
        ⟨pairwise_before_of_since? h.ordered hold, List.pairwise_singleton _ _, ?_⟩
      intro name hmem new hmem'
      obtain rfl := List.mem_singleton.1 hmem'
      have hsome : (past.since? name).isSome = true := by
        rw [isSome_since?]
        exact h.mem_keys.1 hmem
      obtain ⟨m, hm⟩ := Option.isSome_iff_exists.1 hsome
      exact ⟨m, past.length, (hold name hmem).trans hm, hnew, since?_lt hm⟩

theorem delete (h : past.Holds es) (key : Text) :
    Holds (.delete key :: past) (Entries.erase es key) := by
  refine ⟨fun name => ?_, ?_⟩
  · rw [written?]
    split
    next heq => rw [← heq, Entries.get?_erase_self h.nodup_keys]
    next hne => rw [Entries.get?_erase_of_ne _ hne, h.get]
  · have hordered := h.ordered.sublist (List.erase_sublist (a := key))
    rw [Entries.keys_erase]
    refine pairwise_before_of_since? hordered fun name hmem => if_neg ?_
    rintro rfl
    exact h.nodup_keys.not_mem_erase hmem

end ObjectPast.Holds

namespace ObjectPast

/-- One call does to the object what it does to its past. -/
theorem perform_eq {past : ObjectPast} {es : Entries Value} (h : past.Holds es)
    (call : ObjectCall) :
    ∃ es', call.perform ⟨.object es, past.released⟩ = ⟨.object es', released (call :: past)⟩ ∧
      Holds (call :: past) es' := by
  cases call with
  | set key v => exact ⟨_, rfl, h.set key v⟩
  | delete key => exact ⟨_, rfl, h.delete key⟩
  | clone =>
    refine ⟨es, ?_, h.get, h.ordered⟩
    simp only [ObjectCall.perform, Owned.copy, Value.copy_eq_self, released]
  | release =>
    simp only [ObjectCall.perform, Owned.release]
    cases hreleased : past.released with
    | true =>
      refine ⟨es, rfl, fun key => ?_, ?_⟩
      · rw [h.get, written?, if_pos hreleased]
      · exact pairwise_before_of_since? h.ordered fun key _ => if_pos hreleased
    | false =>
      refine ⟨[], rfl, fun key => ?_, .nil⟩
      rw [written?, hreleased]
      rfl

/-- Any calls do to an empty object what its past says. -/
theorem object_eq (past : ObjectPast) :
    ∃ es, past.object = ⟨.object es, past.released⟩ ∧ past.Holds es := by
  induction past with
  | nil => exact ⟨[], rfl, fun _ => rfl, .nil⟩
  | cons call past ih =>
    obtain ⟨es, heq, hholds⟩ := ih
    rw [object, heq]
    exact perform_eq hholds call

end ObjectPast

/-- The object works as a map in insertion order that has the past. -/
structure Owned.Refines (past : ObjectPast) (o : Owned) : Prop where
  nodup_keys : o.keys.Nodup
  mem_keys : ∀ key, key ∈ o.keys ↔ (past.written? key).isSome = true
  /-- The keys stand in the order in which they last became present. -/
  ordered : o.keys.Pairwise past.Before
  overwrites : ∀ key v, key ∈ o.keys → (o.set key v).keys = o.keys
  appends : ∀ key v, key ∉ o.keys → (o.set key v).keys = o.keys ++ [key]
  moves : ∀ key v, ((o.delete key).2.set key v).keys = o.keys.erase key ++ [key]
  peek : ∀ key, o.peek? key = past.written? key
  get : ∀ key, o.get key = (past.written? key).getD .null
  has : ∀ key, o.has key = (past.written? key).isSome
  delete : ∀ key, (o.delete key).1 = (past.written? key).isSome
  size : o.size = o.keys.length
  /-- The first release empties the object, and no later one does anything. -/
  release : if past.released then o.release = o else o.release.keys = []
  /-- A clone has the same entries and may be released itself. -/
  clone : o.copy.entries = o.entries ∧ o.copy.release.keys = []

theorem ObjectPast.object_refines (past : ObjectPast) : past.object.Refines past := by
  obtain ⟨es, heq, h⟩ := past.object_eq
  have hcontains : ∀ key, Entries.contains es key = (past.written? key).isSome := by
    intro key
    rw [Entries.contains, h.get]
  rw [heq]
  refine ⟨h.nodup_keys, fun key => h.mem_keys, h.ordered,
    fun key v hkey => Entries.keys_insert_of_mem hkey v,
    fun key v hkey => Entries.keys_insert_of_not_mem hkey v, fun key v => ?_, h.get,
    fun key => congrArg (·.getD .null) (h.get key), hcontains, hcontains,
    (List.length_map _).symm, ?_, ?_⟩
  · show Entries.keys (Entries.insert (Entries.erase es key) key v) =
      (Entries.keys es).erase key ++ [key]
    have hgone : key ∉ Entries.keys (Entries.erase es key) := by
      rw [Entries.keys_erase]
      exact h.nodup_keys.not_mem_erase
    rw [Entries.keys_insert_of_not_mem hgone, Entries.keys_erase]
  · cases past.released with
    | true => rfl
    | false => rfl
  · simp only [Owned.copy, Value.copy_eq_self]
    exact ⟨rfl, rfl⟩

/-! ## Objects and their clones -/

/-- Calls of objects, the latest first, each with the number of the object that it is made
    of. At first there is one object, and a clone gets the next number. -/
abbrev ShelfPast := List (Nat × ObjectCall)

namespace ShelfPast

variable {σ τ : Type}

/-- What the calls make of all objects, where `start` is what an object is at first and `act`
    what a call makes of it. -/
def states (start : σ) (act : ObjectCall → σ → σ) : ShelfPast → List σ
  | [] => [start]
  | (i, .clone) :: calls =>
    states start act calls ++ ((states start act calls)[i]?.map (act .clone)).toList
  | (i, call) :: calls => (states start act calls).modify i (act call)

/-- The objects after the calls. -/
def objects : ShelfPast → List Owned :=
  states { value := .object [] } ObjectCall.perform

/-- The past of each object. -/
def pasts : ShelfPast → List ObjectPast := states [] List.cons

theorem map_modify {f : σ → τ} {g : σ → σ} {g' : τ → τ} (hg : ∀ s, f (g s) = g' (f s))
    (ss : List σ) (i : Nat) : (ss.modify i g).map f = (ss.map f).modify i g' := by
  induction ss generalizing i with
  | nil => simp
  | cons s ss ih => cases i <;> simp [hg, ih]

/-- A view of objects that every call respects. -/
theorem map_states (f : σ → τ) (start : σ) (act : ObjectCall → σ → σ) (act' : ObjectCall → τ → τ)
    (hact : ∀ call s, f (act call s) = act' call (f s)) (calls : ShelfPast) :
    (states start act calls).map f = states (f start) act' calls := by
  induction calls with
  | nil => rfl
  | cons numbered calls ih =>
    obtain ⟨i, call⟩ := numbered
    have hmodify : ((states start act calls).modify i (act call)).map f =
        (states (f start) act' calls).modify i (act' call) := by
      rw [← ih]
      exact map_modify (hact call) _ i
    cases call with
    | clone =>
      have hclone : ((states start act calls)[i]?.map (act .clone)).map f =
          ((states start act calls)[i]?.map f).map (act' .clone) := by
        rw [Option.map_map, Option.map_map]
        exact congrArg (Option.map · _) (funext (hact .clone))
      rw [states, states, List.map_append, ← ih, List.getElem?_map, ← Option.toList_map, hclone]
    | set key v => exact hmodify
    | delete key => exact hmodify
    | release => exact hmodify

/-- Each object is what its own past has made of it. -/
theorem objects_eq (calls : ShelfPast) : calls.objects = calls.pasts.map ObjectPast.object :=
  (map_states ObjectPast.object [] List.cons ObjectCall.perform (fun _ _ => rfl) calls).symm

/-- After any calls, every object is a map in insertion order that has its own past. -/
theorem objects_refine (calls : ShelfPast) {i : Nat} {o : Owned}
    (h : calls.objects[i]? = some o) :
    ∃ past, calls.pasts[i]? = some past ∧ o.Refines past := by
  rw [objects_eq, List.getElem?_map] at h
  obtain ⟨past, hpast, rfl⟩ := Option.map_eq_some_iff.1 h
  exact ⟨past, hpast, past.object_refines⟩

/-- An object is released, filled again and released to no effect, while a clone that was made
    before lives on: there `a` is deleted and set again, and moves behind `b`. -/
theorem objects_refine_clone :
    let calls : ShelfPast := [(1, .set "a" (.int 4)), (1, .delete "a"), (0, .release),
      (0, .set "c" (.int 3)), (0, .release), (0, .clone), (0, .set "b" (.int 2)),
      (0, .set "a" (.int 1))]
    (∃ o, calls.objects[0]? = some o ∧ o.keys = [("c" : Text)] ∧ o.get "a" = .null ∧
        o.release = o) ∧
      ∃ o, calls.objects[1]? = some o ∧ o.keys = [("b" : Text), "a"] ∧ o.get "a" = .int 4 ∧
        o.release.keys = [] := by
  intro calls
  constructor
  · obtain ⟨o, ho⟩ : ∃ o, calls.objects[0]? = some o := ⟨_, rfl⟩
    obtain ⟨past, hpast, h⟩ := objects_refine calls ho
    cases hpast
    refine ⟨o, ho, ?_, h.get _, h.release⟩
    cases ho
    rfl
  · obtain ⟨o, ho⟩ : ∃ o, calls.objects[1]? = some o := ⟨_, rfl⟩
    obtain ⟨past, hpast, h⟩ := objects_refine calls ho
    cases hpast
    refine ⟨o, ho, ?_, h.get _, h.release⟩
    cases ho
    rfl

end ShelfPast

end Reckon
