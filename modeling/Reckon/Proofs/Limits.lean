-- SUMMARY: A compilation fails exactly if the tree needs more instructions or more constants than the limits allow.
import Mathlib.Data.Finset.Card
import Reckon.Proofs.Compilation

/-!
# Limits

What a tree needs can be counted on the tree: the instructions of its code, the
texts that they name and the integers that are too wide for an immediate. A
compilation fails exactly if one of the three exceeds its limit, and the error
that it reports is about a limit that is exceeded. That an operand is out of
range or that a node leaves the stack unbalanced is never reported.
-/

namespace Reckon

/-! ## What a tree needs -/

/-- How many constants a pool takes. -/
def CompileOptions.poolLimit (o : CompileOptions) : Int :=
  max 0 (min o.maxPoolEntries Pool.capacity)

/-- The constant of a literal that lies in a pool. An integer does if it does not fit an
    immediate, even if it fits one when it is wrapped. -/
def Literal.pooled : Literal → List Constant
  | .int n => if Emitter.fitsImmediate n then [] else [.int (wrap64 n)]
  | .float x => [.text x.constantText]
  | .string s => [.text s]
  | .bool _ => []
  | .null => []

namespace Expr

mutual

/-- The number of instructions of a tree, without the closing halt. -/
def instructions : Expr → Nat
  | .lit _ => 1
  | .var _ => 1
  | .field _ _ => 2
  | .member target _ => instructions target + 1
  | .computed target key => instructions target + instructions key + 1
  | .index target position => instructions target + instructions position + 1
  | .binary _ left right => instructions left + instructions right + 1
  | .unary _ operand => instructions operand + 1
  | .cond test consequent alternate =>
    instructions test + instructions consequent + instructions alternate + 2
  | .call _ args => instructionsAll args + 1
  | .method receiver _ args => instructions receiver + instructionsAll args + 1
  | .group inner => instructions inner
  | .array elements => instructionsAll elements + 1
  | .object properties => instructionsProperties properties + 1
  | .unknown _ => 1

def instructionsAll : List Expr → Nat
  | [] => 0
  | x :: xs => instructions x + instructionsAll xs

/-- Each property pushes its key in front of its value. -/
def instructionsProperties : List (Text × Expr) → Nat
  | [] => 0
  | (_, x) :: xs => instructions x + 1 + instructionsProperties xs

end

mutual

/-- The constants that a tree mentions, with repetition. -/
def pooled : Expr → List Constant
  | .lit l => l.pooled
  | .var name => [.text name]
  | .field owner name => [.text owner, .text name]
  | .member target property => pooled target ++ [.text property]
  | .computed target key => pooled target ++ pooled key
  | .index target position => pooled target ++ pooled position
  | .binary _ left right => pooled left ++ pooled right
  | .unary _ operand => pooled operand
  | .cond test consequent alternate => pooled test ++ pooled consequent ++ pooled alternate
  | .call callee args => .text callee :: pooledAll args
  | .method receiver name args => pooled receiver ++ .text name :: pooledAll args
  | .group inner => pooled inner
  | .array elements => pooledAll elements
  | .object properties => pooledProperties properties
  | .unknown _ => []

def pooledAll : List Expr → List Constant
  | [] => []
  | x :: xs => pooled x ++ pooledAll xs

def pooledProperties : List (Text × Expr) → List Constant
  | [] => []
  | (k, x) :: xs => .text k :: (pooled x ++ pooledProperties xs)

end

/-- The texts among the constants: names, keys, strings and floating-point numbers. -/
def texts (x : Expr) : Finset Text := (x.pooled.filterMap Constant.text?).toFinset

/-- The integers among the constants, as they are wrapped. -/
def wideInts (x : Expr) : Finset Int := (x.pooled.filterMap Constant.int?).toFinset

/-! ## Lines count what the tree counts -/

variable (prefixes : List Text)

mutual

theorem length_lines : ∀ x : Expr, (lines prefixes x).length = x.instructions
  | .lit _ | .var _ | .field _ _ | .unknown _ => rfl
  | .member target _ => by
    rw [lines, List.length_append, length_lines target, instructions, List.length_singleton]
  | .computed target key | .index target key | .binary _ target key => by
    simp only [lines, List.length_append, length_lines target, length_lines key, instructions,
      List.length_singleton, Nat.add_assoc]
  | .unary _ operand => by
    rw [lines, List.length_append, length_lines operand, instructions, List.length_singleton]
  | .cond test consequent alternate => by
    simp only [lines, List.length_append, List.length_cons, length_lines test,
      length_lines consequent, length_lines alternate, instructions]
    omega
  | .call _ args => by
    rw [lines, List.length_append, length_linesArgs args, instructions, List.length_singleton]
  | .method receiver _ args => by
    simp only [lines, List.length_append, length_lines receiver, length_linesArgs args,
      instructions, List.length_singleton, Nat.add_assoc]
  | .group inner => by rw [lines, length_lines inner, instructions]
  | .array elements => by
    rw [lines, List.length_append, length_linesAll elements, instructions, List.length_singleton]
  | .object properties => by
    rw [lines, List.length_append, length_linesProperties properties, instructions,
      List.length_singleton]

theorem length_linesArgs : ∀ xs : List Expr, (linesArgs prefixes xs).length = instructionsAll xs
  | [] => rfl
  | x :: xs => by
    rw [linesArgs, List.length_append, length_linesArgs xs, length_lines x, instructionsAll,
      Nat.add_comm]

theorem length_linesAll : ∀ xs : List Expr, (linesAll prefixes xs).length = instructionsAll xs
  | [] => rfl
  | x :: xs => by
    rw [linesAll, List.length_append, length_linesAll xs, length_lines x, instructionsAll]

theorem length_linesProperties :
    ∀ xs : List (Text × Expr), (linesProperties prefixes xs).length = instructionsProperties xs
  | [] => rfl
  | (k, x) :: xs => by
    rw [linesProperties, List.length_cons, List.length_append, length_linesProperties xs,
      length_lines x, instructionsProperties]
    omega

end

end Expr

namespace Line

/-- The constants of lines. -/
def constants (ls : List Line) : List Constant := ls.filterMap constant?

theorem constants_cons (l : Line) (ls : List Line) :
    constants (l :: ls) = l.constant?.toList ++ constants ls := by
  rw [constants, List.filterMap_cons]
  cases l.constant? <;> rfl

theorem constants_append (ls ls' : List Line) :
    constants (ls ++ ls') = constants ls ++ constants ls' :=
  List.filterMap_append

theorem constants_singleton (l : Line) : constants [l] = l.constant?.toList := by
  rw [constants_cons]
  exact List.append_nil _

theorem constant?_push (l : Literal) : (push l).constant?.toList = l.pooled := by
  cases l with
  | int n =>
    simp only [constant?, Literal.pooled]
    split <;> rfl
  | _ => rfl

theorem constant?_call (prefixes : List Text) (callee : Text) (argc : Nat) :
    (call prefixes callee argc).constant? = some (.text callee) := by
  unfold call
  split <;> rfl

end Line

namespace Expr

open Line (constants constants_cons constants_append constants_singleton constant?)

variable (prefixes : List Text) (a : Constant)

mutual

/-- The lines of a tree have the constants that it mentions. -/
theorem mem_pooled : ∀ x : Expr, a ∈ constants (lines prefixes x) ↔ a ∈ x.pooled
  | .lit l => by rw [lines, constants_singleton, Line.constant?_push, pooled]
  | .var _ | .field _ _ | .unknown _ => Iff.rfl
  | .member target _ => by
    simp [lines, pooled, constants_append, constants_singleton, constant?, mem_pooled target]
  | .computed target key | .index target key | .binary _ target key => by
    simp [lines, pooled, constants_append, constants_singleton, constant?, mem_pooled target,
      mem_pooled key]
  | .unary _ operand => by
    simp [lines, pooled, constants_append, constants_singleton, constant?, mem_pooled operand]
  | .cond test consequent alternate => by
    simp [lines, pooled, constants_append, constants_cons, constant?, mem_pooled test,
      mem_pooled consequent, mem_pooled alternate]
  | .call callee args => by
    simp [lines, pooled, constants_append, constants_singleton, Line.constant?_call,
      mem_pooledArgs args, or_comm]
  | .method receiver name args => by
    simp [lines, pooled, constants_append, constants_singleton, constant?, mem_pooled receiver,
      mem_pooledArgs args, or_comm (a := a = .text name)]
  | .group inner => mem_pooled inner
  | .array elements => by
    simp [lines, pooled, constants_append, constants_singleton, constant?, mem_pooledAll elements]
  | .object properties => by
    simp [lines, pooled, constants_append, constants_singleton, constant?,
      mem_pooledProperties properties]

theorem mem_pooledArgs : ∀ xs : List Expr,
    a ∈ constants (linesArgs prefixes xs) ↔ a ∈ pooledAll xs
  | [] => Iff.rfl
  | x :: xs => by
    rw [linesArgs, constants_append, List.mem_append, mem_pooledArgs xs, mem_pooled x, pooledAll,
      List.mem_append, or_comm]

theorem mem_pooledAll : ∀ xs : List Expr,
    a ∈ constants (linesAll prefixes xs) ↔ a ∈ pooledAll xs
  | [] => Iff.rfl
  | x :: xs => by
    rw [linesAll, constants_append, List.mem_append, mem_pooledAll xs, mem_pooled x, pooledAll,
      List.mem_append]

theorem mem_pooledProperties : ∀ xs : List (Text × Expr),
    a ∈ constants (linesProperties prefixes xs) ↔ a ∈ pooledProperties xs
  | [] => Iff.rfl
  | (k, x) :: xs => by
    simp [linesProperties, pooledProperties, constants_cons, constants_append, constant?,
      mem_pooled x, mem_pooledProperties xs]

end

end Expr

/-! ## Pools refuse what exceeds them -/

namespace Pool

variable {α : Type} [DecidableEq α]

/-- The pool was offered these constants: it has taken each once, and refused some only
    because it was full. -/
structure Offered (p : Pool α) (seen : Finset α) : Prop where
  nodup : p.entries.Nodup
  subset : p.entries.toFinset ⊆ seen
  length_le : (p.entries.length : Int) ≤ max 0 p.limit
  full : ∀ a ∈ seen, a ∉ p.entries → p.limit ≤ p.entries.length

theorem offered_empty (limit : Int) : Offered (⟨limit, []⟩ : Pool α) ∅ :=
  ⟨List.nodup_nil, Finset.empty_subset _, Int.le_max_left 0 limit, by simp⟩

/-- A pool is as before, because it has the constant or is full, or has taken it. -/
theorem snd_add_cases (p : Pool α) (a : α) :
    ((p.add a).2 = p ∧ (a ∈ p.entries ∨ p.limit ≤ p.entries.length)) ∨
    ((p.add a).2 = { p with entries := p.entries ++ [a] } ∧ a ∉ p.entries ∧
      p.entries.length < p.limit) := by
  rw [add]
  split
  next i hi =>
    refine .inl ⟨rfl, .inl ?_⟩
    by_contra hnot
    rw [List.idxOf?_eq_none_iff.2 hnot] at hi
    cases hi
  next hnone =>
    split
    next hfull => exact .inl ⟨rfl, .inr hfull⟩
    next hroom => exact .inr ⟨rfl, List.idxOf?_eq_none_iff.1 hnone, Int.not_le.1 hroom⟩

theorem Offered.add {p : Pool α} {seen : Finset α} (h : p.Offered seen) (a : α) :
    (p.add a).2.Offered (insert a seen) := by
  have hsubset : p.entries.toFinset ⊆ insert a seen := h.subset.trans (Finset.subset_insert a seen)
  rcases p.snd_add_cases a with ⟨hadd, hkept⟩ | ⟨hadd, hnot, hroom⟩
  · rw [hadd]
    refine ⟨h.nodup, hsubset, h.length_le, fun b hb hmissing => ?_⟩
    rcases Finset.mem_insert.1 hb with rfl | hb
    · exact hkept.resolve_left hmissing
    · exact h.full b hb hmissing
  · rw [hadd]
    refine ⟨?_, ?_, ?_, fun b hb hmissing => ?_⟩
    · exact List.nodup_append.2 ⟨h.nodup, List.nodup_singleton a, by
        rintro b hb _ hmem rfl
        exact hnot (List.mem_singleton.1 hmem ▸ hb)⟩
    · rw [List.toFinset_append]
      exact Finset.union_subset hsubset (by simp)
    · show ((p.entries ++ [a]).length : Int) ≤ max 0 p.limit
      rw [List.length_append, List.length_singleton]
      omega
    · obtain ⟨hother, hne⟩ : b ∉ p.entries ∧ ¬ b = a := by simpa using hmissing
      have hfull := h.full b ((Finset.mem_insert.1 hb).resolve_left hne) hother
      omega

theorem Offered.addAll {p : Pool α} {seen : Finset α} (h : p.Offered seen) (as : List α) :
    (p.addAll as).Offered (seen ∪ as.toFinset) := by
  induction as generalizing p seen with
  | nil =>
    rw [List.toFinset_nil, Finset.union_empty]
    exact h
  | cons a as ih =>
    have hrest := ih (h.add a)
    rwa [Finset.insert_union, ← Finset.union_insert, ← List.toFinset_cons] at hrest

/-- A pool takes all that it is offered exactly if there are not too many. -/
theorem Offered.forall_mem_iff {p : Pool α} {seen : Finset α} (h : p.Offered seen) :
    (∀ a ∈ seen, a ∈ p.entries) ↔ (seen.card : Int) ≤ max 0 p.limit := by
  have hcard : p.entries.toFinset.card = p.entries.length := List.toFinset_card_of_nodup h.nodup
  constructor
  · intro hall
    have hle : seen.card ≤ p.entries.toFinset.card :=
      Finset.card_le_card fun a ha => List.mem_toFinset.2 (hall a ha)
    have hlength := h.length_le
    omega
  · intro hroom a ha
    by_contra hmissing
    have hfull := h.full a ha hmissing
    have hproper : p.entries.toFinset ⊂ seen :=
      ⟨h.subset, fun hsup => hmissing (List.mem_toFinset.1 (hsup ha))⟩
    have hlt := Finset.card_lt_card hproper
    omega

end Pool

/-! ## Errors name a limit that is exceeded -/

namespace Emitter

/-- The error is one of a limit, which the lines exceed that were to be written. -/
def Justifies (e : Emitter) (ls : List Line) : CompileError → Prop
  | .instructionLimit limit => limit = e.maxInstructions ∧ limit ≤ (e.code.size : Int) + ls.length
  | .stringPool => ∃ t, .text t ∈ Line.constants ls ∧ t ∉ (e.putAll ls).strings.entries
  | .integerPool => ∃ n, .int n ∈ Line.constants ls ∧ n ∉ (e.putAll ls).ints.entries
  | _ => False

theorem error_append {e : Emitter} (hnone : e.error = none) {effect : Int} {d : Draft}
    (hop : d.op ≠ .halt) (hfits : d.fits = true) {x : CompileError}
    (h : (e.append effect d).error = some x) :
    x = .instructionLimit e.maxInstructions ∧ e.maxInstructions ≤ (e.code.size : Int) + 1 := by
  have hslots : e.slots d.op = e.maxInstructions - 1 := if_neg hop
  simp only [append, emit, hnone, hslots, hfits, Option.isSome_none, Bool.false_and,
    Bool.false_eq_true, if_false, Bool.not_true] at h
  split at h
  next hfull =>
    simp only [fail, hnone, Option.some.injEq] at h
    exact ⟨h.symm, by omega⟩
  next => cases h

/-- A pool that refuses a constant is an error of its own. -/
theorem error_store {e e' : Emitter} (hnone : e.error = none) {a? : Option Constant}
    (h : e.store a? = (none, e')) :
    (∃ t, a? = some (.text t) ∧ e'.error = some .stringPool) ∨
      ∃ n, a? = some (.int n) ∧ e'.error = some .integerPool := by
  cases a? with
  | none => cases h
  | some a =>
    cases a with
    | text t =>
      rw [store, addString] at h
      split at h
      · cases h
      · cases h
        exact .inl ⟨t, rfl, by simp only [fail, hnone]⟩
    | int n =>
      rw [store, addInt] at h
      split at h
      · cases h
      · cases h
        exact .inr ⟨n, rfl, by simp only [fail, hnone]⟩

theorem constants_put (e : Emitter) (l : Line) :
    (e.put l).constants = (e.collect l.constant?).constants := by
  obtain ⟨code, depth, maxDepth, error, hput⟩ := (e.put_spec l).1
  rw [hput]
  rfl

theorem justifies_put {e : Emitter} (hcapped : e.Capped) (hnone : e.error = none) (l : Line)
    {x : CompileError} (h : (e.put l).error = some x) : e.Justifies [l] x := by
  have hconstants := e.constants_put l
  rcases e.store_cases l.constant? with ⟨hstore, hhas⟩ | ⟨y, hstore, -, a, ha, hnot⟩
  · have hindex : l.constant?.elim 0 (e.collect l.constant?).constants.position < 65536 := by
      cases hconst : l.constant? with
      | none => exact Nat.zero_lt_succ _
      | some a =>
        rw [hconst] at hhas hconstants
        exact Constants.position_lt (hconstants ▸ (hcapped.putAll [l]).bounded) (hhas a rfl)
    rw [put, hstore] at h
    obtain ⟨rfl, hfull⟩ := error_append (e := e.collect l.constant?) hnone (op_draft_ne_halt l _)
      (fits_draft l hindex) h
    exact ⟨rfl, hfull⟩
  · have herror : (e.put l).error = some y := by rw [put, hstore]
    obtain rfl : x = y := Option.some.inj (h.symm.trans herror)
    rw [← hconstants] at hnot
    rw [Option.mem_def] at ha
    have hmem : a ∈ Line.constants [l] := by
      rw [Line.constants_singleton, ha]
      exact List.mem_singleton_self a
    rcases error_store hnone hstore with ⟨t, ht, hpool⟩ | ⟨n, hn, hpool⟩
    · cases hpool
      cases ha.symm.trans ht
      exact ⟨t, hmem, hnot⟩
    · cases hpool
      cases ha.symm.trans hn
      exact ⟨n, hmem, hnot⟩

/-- An error stays justified if there are no fewer lines and no constant is stored that was
    missing. -/
theorem Justifies.imp {e e' : Emitter} {ls ls' : List Line} {x : CompileError}
    (h : e.Justifies ls x) (hmax : e'.maxInstructions = e.maxInstructions)
    (hsize : e.code.size + ls.length ≤ e'.code.size + ls'.length)
    (hmissing : ∀ a ∈ Line.constants ls, ¬ (e.putAll ls).constants.Has a →
      a ∈ Line.constants ls' ∧ ¬ (e'.putAll ls').constants.Has a) : e'.Justifies ls' x := by
  cases x with
  | instructionLimit limit =>
    obtain ⟨hlimit, hfull⟩ := h
    exact ⟨hlimit.trans hmax.symm, by omega⟩
  | stringPool =>
    obtain ⟨t, ht, hnot⟩ := h
    exact ⟨t, hmissing (.text t) ht hnot⟩
  | integerPool =>
    obtain ⟨n, hn, hnot⟩ := h
    exact ⟨n, hmissing (.int n) hn hnot⟩
  | operandRange op => exact h
  | stackImbalance kind => exact h

/-- An error at the first line is not undone by the lines behind it. -/
theorem Justifies.of_first {e : Emitter} {l : Line} {x : CompileError} (h : e.Justifies [l] x)
    (ls : List Line) : e.Justifies (l :: ls) x := by
  refine h.imp rfl (by simp) fun a ha hnot => ?_
  rw [Line.constants_singleton, Option.mem_toList] at ha
  refine ⟨?_, fun hhas => hnot (has_put_of_has_putAll ha hhas)⟩
  rw [Line.constants_cons, List.mem_append, Option.mem_toList]
  exact .inl ha

theorem Justifies.of_rest {e : Emitter} {l : Line} (hwritten : e.Written l (e.put l))
    {ls : List Line} {x : CompileError} (h : (e.put l).Justifies ls x) :
    e.Justifies (l :: ls) x := by
  have hsize : (e.put l).code.size = e.code.size + 1 := by
    rw [hwritten.code, Array.size_push]
  refine h.imp (e.maxInstructions_put l).symm ?_ fun a ha hnot => ⟨?_, hnot⟩
  · rw [hsize, List.length_cons]
    omega
  · rw [Line.constants_cons]
    exact List.mem_append_right _ ha

/-- The error that is met when lines are written is about a limit that they exceed. -/
theorem justifies_putAll {e : Emitter} (hcapped : e.Capped) (hnone : e.error = none)
    {ls : List Line} {x : CompileError} (h : (e.putAll ls).error = some x) :
    e.Justifies ls x := by
  induction ls generalizing e with
  | nil => cases hnone.symm.trans h
  | cons l ls ih =>
    rcases e.put_cases l with hwritten | hrefused
    · exact .of_rest hwritten (ih (hcapped.putAll [l]) hwritten.after h)
    · obtain ⟨y, hy⟩ := Option.ne_none_iff_exists'.1 hrefused.after
      have hsticky := (putAll_of_error hrefused.after ls).sticky y hy
      obtain rfl : x = y := Option.some.inj (h.symm.trans hsticky)
      exact (justifies_put hcapped hnone l hy).of_first ls

end Emitter

/-! ## Compilations fail at their limits -/

namespace Constant

theorem mem_filterMap_text? {as : List Constant} {t : Text} :
    t ∈ as.filterMap text? ↔ .text t ∈ as := by
  rw [List.mem_filterMap]
  constructor
  · rintro ⟨a, ha, htext⟩
    cases a with
    | text t' => cases htext; exact ha
    | int n => cases htext
  · exact fun ht => ⟨.text t, ht, rfl⟩

theorem mem_filterMap_int? {as : List Constant} {n : Int} :
    n ∈ as.filterMap int? ↔ .int n ∈ as := by
  rw [List.mem_filterMap]
  constructor
  · rintro ⟨a, ha, hint⟩
    cases a with
    | text t => cases hint
    | int n' => cases hint; exact ha
  · exact fun hn => ⟨.int n, hn, rfl⟩

end Constant

namespace Expr

variable (o : CompileOptions) (x : Expr)

theorem mem_texts {x : Expr} {t : Text} : t ∈ x.texts ↔ .text t ∈ x.pooled :=
  List.mem_toFinset.trans Constant.mem_filterMap_text?

theorem mem_wideInts {x : Expr} {n : Int} : n ∈ x.wideInts ↔ .int n ∈ x.pooled :=
  List.mem_toFinset.trans Constant.mem_filterMap_int?

theorem length_code : (x.code o).length = (x.target o).instructions :=
  length_lines o.prefixes (x.target o)

theorem mem_constants_code {a : Constant} :
    a ∈ Line.constants (x.code o) ↔ a ∈ (x.target o).pooled :=
  mem_pooled o.prefixes a (x.target o)

/-- What is offered to the pools is what the tree mentions. -/
theorem offered_written :
    (x.written o).strings.Offered (x.target o).texts ∧
      (x.written o).ints.Offered (x.target o).wideInts := by
  have hstrings : (x.written o).strings = o.emitter.strings.addAll
      ((Line.constants (x.code o)).filterMap Constant.text?) := by
    rw [written, Emitter.strings_putAll, Line.constants, List.filterMap_filterMap]
  have hints : (x.written o).ints = o.emitter.ints.addAll
      ((Line.constants (x.code o)).filterMap Constant.int?) := by
    rw [written, Emitter.ints_putAll, Line.constants, List.filterMap_filterMap]
  have htexts : (x.target o).texts =
      ∅ ∪ ((Line.constants (x.code o)).filterMap Constant.text?).toFinset := by
    ext t
    rw [Finset.empty_union, mem_texts, List.mem_toFinset, Constant.mem_filterMap_text?,
      mem_constants_code]
  have hwide : (x.target o).wideInts =
      ∅ ∪ ((Line.constants (x.code o)).filterMap Constant.int?).toFinset := by
    ext n
    rw [Finset.empty_union, mem_wideInts, List.mem_toFinset, Constant.mem_filterMap_int?,
      mem_constants_code]
  rw [hstrings, hints, htexts, hwide]
  exact ⟨(Pool.offered_empty _).addAll _, (Pool.offered_empty _).addAll _⟩

theorem limit_written :
    max 0 (x.written o).strings.limit = o.poolLimit ∧
      max 0 (x.written o).ints.limit = o.poolLimit := by
  rw [written, Emitter.strings_putAll, Emitter.ints_putAll, Pool.limit_addAll, Pool.limit_addAll]
  exact ⟨rfl, rfl⟩

theorem forall_texts_iff :
    (∀ t ∈ (x.target o).texts, t ∈ (x.written o).strings.entries) ↔
      ((x.target o).texts.card : Int) ≤ o.poolLimit := by
  rw [← (x.limit_written o).1]
  exact (x.offered_written o).1.forall_mem_iff

theorem forall_wideInts_iff :
    (∀ n ∈ (x.target o).wideInts, n ∈ (x.written o).ints.entries) ↔
      ((x.target o).wideInts.card : Int) ≤ o.poolLimit := by
  rw [← (x.limit_written o).2]
  exact (x.offered_written o).2.forall_mem_iff

/-- The pools hold the constants of the lines exactly if there are not too many of either
    kind. -/
theorem has_code_iff :
    (∀ l ∈ x.code o, ∀ a ∈ l.constant?, (x.written o).constants.Has a) ↔
      ((x.target o).texts.card : Int) ≤ o.poolLimit ∧
      ((x.target o).wideInts.card : Int) ≤ o.poolLimit := by
  have hmem : ∀ a, a ∈ (x.target o).pooled ↔ ∃ l ∈ x.code o, l.constant? = some a := by
    intro a
    rw [← mem_constants_code, Line.constants, List.mem_filterMap]
  rw [← forall_texts_iff, ← forall_wideInts_iff]
  constructor
  · intro hhas
    refine ⟨fun t ht => ?_, fun n hn => ?_⟩
    · obtain ⟨l, hl, ha⟩ := (hmem _).1 (mem_texts.1 ht)
      exact hhas l hl _ ha
    · obtain ⟨l, hl, ha⟩ := (hmem _).1 (mem_wideInts.1 hn)
      exact hhas l hl _ ha
  · rintro ⟨htexts, hwide⟩ l hl a ha
    have hpooled := (hmem a).2 ⟨l, hl, ha⟩
    cases a with
    | text t => exact htexts t (mem_texts.2 hpooled)
    | int n => exact hwide n (mem_wideInts.2 hpooled)

/-- The halt leaves the error as it is. -/
theorem error_emitProgram : (x.emitProgram o).error = (x.written o).error := by
  cases herror : (x.written o).error with
  | none => exact (x.error_emitProgram_eq_none_iff o).2 herror
  | some e =>
    have hemit : ((x.target o).emit o.emitter).error = some e :=
      (x.emits_code o).agrees.error.trans herror
    rw [emitProgram_eq, Emitter.append_halt]
    split
    · rw [Emitter.fail, hemit]
      exact hemit
    · exact hemit

theorem count_compile (h : (x.compile o).failure = none) :
    (x.compile o).count = (x.target o).instructions + 1 := by
  obtain ⟨hroom, -⟩ := (x.failure_compile_eq_none_iff o).1 h
  have hlength := congrArg List.length (x.toList_emitProgram o)
  rw [cut_code h, if_pos (by omega), List.length_append, List.length_map, length_code,
    List.length_singleton, Array.length_toList] at hlength
  show ((x.emitProgram o).code.size : Int) = _
  rw [hlength]
  rfl

/-- A compilation fails exactly if the tree that is compiled needs more instructions, with
    the closing halt, than are allowed, or more texts or more wide integers than a pool
    takes. Without a failure the program has these instructions. A failure is always about
    a limit, and about one that is exceeded. -/
theorem compile_fails_iff (o : CompileOptions) (x : Expr) :
    ((x.compile o).hasFailed = true ↔
      o.maxInstructions < (x.target o).instructions + 1 ∨
      o.poolLimit < (x.target o).texts.card ∨ o.poolLimit < (x.target o).wideInts.card) ∧
    ((x.compile o).hasFailed = false →
      (x.compile o).count = (x.target o).instructions + 1) ∧
    ∀ f, (x.compile o).failure = some f →
      (f = .compile (.instructionLimit o.maxInstructions) ∧
        o.maxInstructions < (x.target o).instructions + 1) ∨
      (f = .compile .stringPool ∧ o.poolLimit < (x.target o).texts.card) ∨
      (f = .compile .integerPool ∧ o.poolLimit < (x.target o).wideInts.card) := by
  have hnone := x.failure_compile_eq_none_iff o
  rw [has_code_iff, length_code] at hnone
  refine ⟨?_, fun hok => ?_, fun f hf => ?_⟩
  · rw [Program.hasFailed, Option.isSome_iff_ne_none, ne_eq, hnone]
    omega
  · exact x.count_compile o (by simpa [Program.hasFailed] using hok)
  · obtain ⟨e, he, rfl⟩ := Option.map_eq_some_iff.1 hf
    rw [error_emitProgram] at he
    have hjustifies := Emitter.justifies_putAll (capped_emitter o) rfl he
    cases e with
    | instructionLimit limit =>
      obtain ⟨hlimit, hfull⟩ := hjustifies
      obtain rfl : limit = o.maxInstructions := hlimit
      have hsize : (o.emitter.code.size : Int) = 0 := rfl
      rw [hsize, length_code] at hfull
      exact .inl ⟨rfl, by omega⟩
    | stringPool =>
      obtain ⟨t, ht, hmissing⟩ := hjustifies
      have htext := mem_texts.2 ((x.mem_constants_code o).1 ht)
      refine .inr (.inl ⟨rfl, Int.not_le.1 fun hroom => hmissing ?_⟩)
      exact (x.forall_texts_iff o).2 hroom t htext
    | integerPool =>
      obtain ⟨n, hn, hmissing⟩ := hjustifies
      have hwide := mem_wideInts.2 ((x.mem_constants_code o).1 hn)
      refine .inr (.inr ⟨rfl, Int.not_le.1 fun hroom => hmissing ?_⟩)
      exact (x.forall_wideInts_iff o).2 hroom n hwide
    | operandRange op => exact hjustifies.elim
    | stackImbalance kind => exact hjustifies.elim

-- An integer that is wrapped to zero lies in a pool all the same.
example : ((lit (.int 18446744073709551616)).compile { maxPoolEntries := 0 }).failure =
    some (.compile .integerPool) := by
  decide

end Expr

end Reckon
