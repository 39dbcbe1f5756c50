-- SUMMARY: Pools: what one holds after any additions, what it answers, and that a position given out stays as it is.
import Reckon.Proofs.Limits
import Reckon.Proofs.WholeNumbers

/-!
# Positions in pools

Code that is already written refers to constants by position, while the
compiler goes on adding constants, also after it has failed. So all that a pool
answers has to hold to the end. A pool only grows at its end, and stops growing
when it is full. Hence each answer, the refusals included, can be read off the
pool as it is at the end, and that pool holds the first distinct constants that
were added.
-/

namespace Reckon

namespace Pool

variable {α : Type} [DecidableEq α]

/-! ## One addition -/

/-- The answer is where the constant now stands. -/
theorem fst_add (p : Pool α) (a : α) : (p.add a).1 = (p.add a).2.entries.idxOf? a := by
  rcases p.add_cases a with ⟨q, hadd, hmem⟩ | ⟨hadd, hnot, -⟩
  · rw [hadd, List.idxOf_eq_getD_idxOf?]
    cases hindex : q.entries.idxOf? a with
    | none => exact absurd hmem (List.idxOf?_eq_none_iff.1 hindex)
    | some i => rfl
  · rw [hadd]
    exact (List.idxOf?_eq_none_iff.2 hnot).symm

theorem add_of_mem {p : Pool α} {a : α} (h : a ∈ p.entries) :
    p.add a = (p.entries.idxOf? a, p) := by
  have hsame : (p.add a).2 = p := by
    rcases p.snd_add_cases a with ⟨hadd, -⟩ | ⟨-, hnot, -⟩
    · exact hadd
    · exact absurd h hnot
  exact Prod.ext ((p.fst_add a).trans (by rw [hsame])) hsame

theorem fst_add_eq_none_iff (p : Pool α) (a : α) :
    (p.add a).1 = none ↔ a ∉ p.entries ∧ p.limit ≤ p.entries.length := by
  rw [fst_add, List.idxOf?_eq_none_iff]
  rcases p.snd_add_cases a with ⟨hadd, hkept⟩ | ⟨hadd, hnot, hroom⟩
  · rw [hadd]
    exact ⟨fun hnot => ⟨hnot, hkept.resolve_left hnot⟩, And.left⟩
  · rw [hadd]
    constructor
    · intro h
      simp at h
    · rintro ⟨-, hfull⟩
      omega

/-! ## Further additions -/

/-- A position does not change when constants are added. -/
theorem idxOf?_addAll {p : Pool α} {a : α} (h : a ∈ p.entries) (bs : List α) :
    (p.addAll bs).entries.idxOf? a = p.entries.idxOf? a := by
  obtain ⟨rest, hrest⟩ := p.prefix_addAll bs
  rw [← hrest, List.idxOf?, List.findIdx?_append]
  cases hindex : p.entries.findIdx? (· == a) with
  | none => exact absurd h (List.idxOf?_eq_none_iff.1 hindex)
  | some i => rfl

/-- The answer to an addition can be read off the pool at any later time: what it refused once,
    it never takes. -/
theorem fst_add_eq_idxOf?_addAll (p : Pool α) (a : α) (bs : List α) :
    (p.add a).1 = ((p.add a).2.addAll bs).entries.idxOf? a := by
  rw [fst_add]
  by_cases hmem : a ∈ (p.add a).2.entries
  · rw [idxOf?_addAll hmem]
  · have hnever : a ∉ ((p.add a).2.addAll bs).entries := fun h => hmem (mem_add_of_mem_addAll h)
    rw [List.idxOf?_eq_none_iff.2 hmem, List.idxOf?_eq_none_iff.2 hnever]

/-- What a pool answers to additions in turn. -/
def answers (p : Pool α) : List α → List (Option Nat)
  | [] => []
  | a :: as => (p.add a).1 :: (p.add a).2.answers as

theorem answers_eq (p : Pool α) (as : List α) :
    p.answers as = as.map fun a => (p.addAll as).entries.idxOf? a := by
  induction as generalizing p with
  | nil => rfl
  | cons a as ih =>
    rw [answers, List.map_cons, ih, p.fst_add_eq_idxOf?_addAll a as]
    rfl

/-! ## What a pool holds -/

/-- The pool after constants were added in turn, the first one to an empty pool. -/
def collect (limit : Int) (as : List α) : Pool α := addAll ⟨limit, []⟩ as

theorem collect_append (limit : Int) (as bs : List α) :
    collect limit (as ++ bs) = (collect limit as).addAll bs := List.foldl_append

theorem limit_collect (limit : Int) (as : List α) : (collect limit as).limit = limit :=
  limit_addAll _ as

theorem offered_collect (limit : Int) (as : List α) :
    (collect limit as).Offered as.toFinset := by
  have h := (offered_empty limit).addAll as
  rwa [Finset.empty_union] at h

/-- A pool holds the first distinct constants, as many as its limit allows. -/
theorem entries_collect (limit : Int) (as : List α) :
    (collect limit as).entries = as.eraseDups.take limit.toNat := by
  induction as using List.reverseRecOn with
  | nil => simp [collect, addAll]
  | append_singleton as a ih =>
    have hlimit := limit_collect limit as
    have hlength := congrArg List.length ih
    rw [List.length_take] at hlength
    rw [collect_append, eraseDups_concat]
    show ((collect limit as).add a).2.entries = _
    rcases (collect limit as).snd_add_cases a with ⟨hadd, hkept⟩ | ⟨hadd, hnot, hroom⟩
    · rw [hadd, ih]
      split
      next => rfl
      next hnew =>
        have hnot : a ∉ (collect limit as).entries := by
          rw [ih]
          exact fun h => hnew (List.mem_eraseDups.1 (List.mem_of_mem_take h))
        have hfull := hkept.resolve_left hnot
        rw [List.take_append_of_le_length (by omega)]
    · -- There was room, so that nothing has been left out so far.
      rw [List.take_of_length_le (by omega)] at ih
      have hnew : a ∉ as := by rwa [ih, List.mem_eraseDups] at hnot
      rw [hadd, if_neg hnew, List.take_of_length_le (by simp; omega)]
      exact congrArg (· ++ [a]) ih

/-! ## Reliance on positions -/

theorem idxOf?_eq_some_iff_of_nodup {entries : List α} (h : entries.Nodup) {a : α} {i : Nat} :
    entries.idxOf? a = some i ↔ entries[i]? = some a := by
  rw [List.idxOf?_eq_some_iff, List.getElem?_eq_some_iff]
  constructor
  · rintro ⟨hlt, heq, -⟩
    exact ⟨hlt, heq⟩
  · rintro ⟨hlt, heq⟩
    refine ⟨hlt, heq, fun j hj hsame => ?_⟩
    have hindex : j = i := h.getElem_inj_iff.1 (hsame.trans heq.symm)
    omega

/-- What `answer` means to one who adds `a` to the pool `p`, which becomes `q`. -/
structure Adds (p : Pool α) (a : α) (answer : Option Nat) (q : Pool α) : Prop where
  isSome_iff : answer.isSome = true ↔ a ∈ q.entries
  some_iff : ∀ i, answer = some i ↔ q.entries[i]? = some a
  none_iff : answer = none ↔ a ∉ p.entries ∧ p.limit ≤ p.entries.length
  unchanged : answer = none → q = p

theorem Offered.adds {p : Pool α} {seen : Finset α} (h : p.Offered seen) (a : α) :
    p.Adds a (p.add a).1 (p.add a).2 := by
  refine ⟨?_, fun i => ?_, p.fst_add_eq_none_iff a, fun hnone => ?_⟩
  · rw [fst_add, Option.isSome_iff_ne_none, ne_eq, List.idxOf?_eq_none_iff, not_not]
  · rw [fst_add, idxOf?_eq_some_iff_of_nodup (h.add a).nodup]
  · exact add_of_full ((p.fst_add_eq_none_iff a).1 hnone).2 a

/-- The position stands for the constant and is given out for it, whichever number names it.
    Up to `2^53 - 1` every position has a number. -/
structure StandsFor (p : Pool α) (i : Nat) (a : α) : Prop where
  entry : p.entries[i]? = some a
  get : ∀ x : Double, x.toNat? = some i → p.get? x = some a
  get_ofNat : i ≤ Double.maxSafe → p.get? (.ofNat i) = some a
  add : p.add a = (some i, p)

theorem standsFor_of_idxOf? {p : Pool α} {i : Nat} {a : α} (h : p.entries.idxOf? a = some i) :
    p.StandsFor i a := by
  have hentry : p.entries[i]? = some a := by
    obtain ⟨hlt, heq, -⟩ := List.idxOf?_eq_some_iff.1 h
    exact List.getElem?_eq_some_iff.2 ⟨hlt, heq⟩
  have hget : ∀ x : Double, x.toNat? = some i → p.get? x = some a := by
    intro x hx
    rw [get?, hx, Option.bind_some, hentry]
  refine ⟨hentry, hget, fun hsafe => hget _ (Double.toNat?_ofNat hsafe), ?_⟩
  rw [add_of_mem (List.mem_of_getElem? hentry), h]

/-- However constants are added to an empty pool, it holds the first distinct ones of them up to
    its limit, in the order in which they came. It answers with the position that a constant has
    from then on, and refuses only what is new to it when it is full. -/
theorem positions_stable (limit : Int) (as : List α) :
    (collect limit as).entries.Nodup ∧
    ((collect limit as).entries.length : Int) ≤ max 0 limit ∧
    (collect limit as).entries = as.eraseDups.take limit.toNat ∧
    (collect limit as).limit = limit ∧
    (∀ a, (collect limit as).Adds a ((collect limit as).add a).1 (collect limit (as ++ [a]))) ∧
    (∀ a i, ((collect limit as).add a).1 = some i →
      ∀ bs, (collect limit (as ++ a :: bs)).StandsFor i a) ∧
    answers ⟨limit, []⟩ as = as.map fun a => (collect limit as).entries.idxOf? a := by
  have hoffered := offered_collect limit as
  have hlimit := limit_collect limit as
  have hlength := hoffered.length_le
  rw [hlimit] at hlength
  refine ⟨hoffered.nodup, hlength, entries_collect limit as, hlimit,
    fun a => ?_, fun a i hi bs => ?_, answers_eq _ as⟩
  · rw [collect_append]
    exact hoffered.adds a
  · apply standsFor_of_idxOf?
    rw [collect_append, ← hi]
    exact ((collect limit as).fst_add_eq_idxOf?_addAll a bs).symm

example : answers (⟨2, []⟩ : Pool Int) [5, 7, 5, 9, 7] = [some 0, some 1, some 0, none, some 1] := by
  decide

end Pool

end Reckon
