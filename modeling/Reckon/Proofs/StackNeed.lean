-- SUMMARY: The stack need of a program is that of its tree, and without conditionals a run overflows exactly below it.
import Reckon.Proofs.Correctness

/-!
# Stack need

How many values the code of a tree has on the stack at its highest point can be
told from the tree: an operand stands above the operands before it, and both
arms of a conditional start where its test did. A program that was compiled
without failure states just this number. If the tree has no conditional, every
run goes through the highest point, so it overflows exactly if the stack has
less room. With conditionals it may take the lower arm.
-/

namespace Reckon

namespace Expr

/-! ## The need of a tree -/

mutual

/-- The most values on the stack while the tree is evaluated, its own value included. -/
def need : Expr → Nat
  | .lit _ | .var _ | .field _ _ | .unknown _ => 1
  | .member target _ => need target
  | .computed target key | .index target key => max (need target) (need key + 1)
  | .binary _ left right => max (need left) (need right + 1)
  | .unary _ operand => need operand
  | .cond test consequent alternate => max (need test) (max (need consequent) (need alternate))
  | .call _ args => max (needArgs args) 1
  | .method receiver _ args => max (need receiver) (needArgs args + 1)
  | .group inner => need inner
  | .array elements => max (needAll elements) 1
  | .object properties => max (needProperties properties) 1

/-- Arguments are evaluated last to first. -/
def needArgs : List Expr → Nat
  | [] => 0
  | x :: xs => max (needArgs xs) (need x + xs.length)

def needAll : List Expr → Nat
  | [] => 0
  | x :: xs => max (need x) (needAll xs + 1)

/-- A key stands below its value. -/
def needProperties : List (Text × Expr) → Nat
  | [] => 0
  | (_, x) :: xs => max (need x + 1) (needProperties xs + 2)

end

end Expr

/-! ## How high lines climb -/

namespace Line

/-- From any height of the stack and in front of any lines, these lines climb up to `need`
    values more, and end `rise` values higher than they started. -/
structure Climbs (ls : List Line) (need rise : Nat) : Prop where
  rise_le : rise ≤ need
  peak : ∀ (h : Nat) (rest : List Line),
    max h (Line.peak h (ls ++ rest)) = max (h + need) (Line.peak (h + rise : Nat) rest)

variable {ls ls' : List Line} {m m' n n' : Nat}

theorem peak_cons {h h' : Nat} {l : Line} (hshift : l.shift = l.effect)
    (heffect : (h : Int) + l.effect = h') (rest : List Line) :
    peak h (l :: rest) = max h' (peak h' rest) := by
  rw [peak, hshift, heffect, Int.toNat_natCast]

namespace Climbs

theorem nil : Climbs [] 0 0 :=
  ⟨Nat.le_refl 0, fun _ _ => rfl⟩

/-- Where the stack was at least as high before, the height at the start does not count. -/
theorem peak_of_le (hc : Climbs ls m n) {h k : Nat} (hle : h ≤ k) (rest : List Line) :
    max k (Line.peak h (ls ++ rest)) = max (max k (h + m)) (Line.peak (h + n : Nat) rest) := by
  calc max k (Line.peak h (ls ++ rest))
      = max k (max h (Line.peak h (ls ++ rest))) := by rw [← Nat.max_assoc, Nat.max_eq_left hle]
    _ = max k (max (h + m) (Line.peak (h + n : Nat) rest)) := by rw [hc.peak]
    _ = max (max k (h + m)) (Line.peak (h + n : Nat) rest) := (Nat.max_assoc ..).symm

/-- What comes second starts from where the first has ended. -/
theorem append (hc : Climbs ls m n) (hc' : Climbs ls' m' n') :
    Climbs (ls ++ ls') (max m (m' + n)) (n + n') := by
  have hrise := hc.rise_le
  have hrise' := hc'.rise_le
  refine ⟨by omega, fun h rest => ?_⟩
  have hstart : h + n ≤ h + m := Nat.add_le_add_left hrise h
  rw [List.append_assoc, hc.peak, hc'.peak_of_le hstart, Nat.add_assoc h n m',
    Nat.add_assoc h n n', Nat.add_max_add_left, Nat.add_comm n m']

/-- A line that takes what the lines before it have left, and puts one value back. -/
theorem close (hc : Climbs ls m n) {l : Line} (hpops : l.pops = n) (hpushes : l.pushes = 1)
    (hshift : l.shift = l.effect) : Climbs (ls ++ [l]) (max m 1) 1 := by
  refine ⟨Nat.le_max_right m 1, fun h rest => ?_⟩
  have hbefore := hc.peak h ([l] ++ rest)
  have hline : Line.peak (h + n : Nat) ([l] ++ rest) =
      max (h + 1) (Line.peak (h + 1 : Nat) rest) := by
    refine peak_cons hshift ?_ rest
    rw [effect, hpops, hpushes]
    omega
  rw [List.append_assoc, hbefore, hline]
  omega

/-- If the line takes anything at all, that was no lower than what it puts back. -/
theorem reduce (hc : Climbs ls m (n + 1)) {l : Line} (hpops : l.pops = n + 1)
    (hpushes : l.pushes = 1) (hshift : l.shift = l.effect) : Climbs (ls ++ [l]) m 1 := by
  have hle : 1 ≤ m := Nat.le_trans (Nat.le_add_left 1 n) hc.rise_le
  have hclose := hc.close hpops hpushes hshift
  rwa [Nat.max_eq_left hle] at hclose

/-- A line that takes one value, and those that were put on top of it. -/
theorem combine (hc : Climbs ls m 1) (hc' : Climbs ls' m' n) {l : Line} (hpops : l.pops = n + 1)
    (hpushes : l.pushes = 1) (hshift : l.shift = l.effect) :
    Climbs (ls ++ (ls' ++ [l])) (max m (m' + 1)) 1 := by
  have hboth := hc.append hc'
  rw [Nat.add_comm 1 n] at hboth
  rw [← List.append_assoc]
  exact hboth.reduce hpops hpushes hshift

/-- Both arms of a conditional start where its test did. -/
theorem cond {test consequent alternate : List Line} {m₁ m₂ m₃ : Nat} (htest : Climbs test m₁ 1)
    (hconsequent : Climbs consequent m₂ 1) (halternate : Climbs alternate m₃ 1) (skip skip' : Nat) :
    Climbs (test ++ .jumpIfFalse skip :: (consequent ++ .jump skip' :: alternate))
      (max m₁ (max m₂ m₃)) 1 := by
  have hrise := halternate.rise_le
  refine ⟨by omega, fun h rest => ?_⟩
  have hbranch : ∀ ls, Line.peak (h + 1 : Nat) (.jumpIfFalse skip :: ls) =
      max h (Line.peak h ls) := by
    refine peak_cons rfl ?_
    simp only [effect, pushes, pops]
    omega
  have hjump : ∀ ls, Line.peak (h + 1 : Nat) (.jump skip' :: ls) =
      max (h + 1) (Line.peak h ls) := by
    intro ls
    have hfall : ((h + 1 : Nat) : Int) + (Line.jump skip').shift = h := by
      simp only [shift]
      omega
    rw [Line.peak, hfall]
    rfl
  have harms : max (h + 1) (h + m₃) = h + m₃ := Nat.max_eq_right (Nat.add_le_add_left hrise h)
  simp only [List.append_assoc, List.cons_append]
  rw [htest.peak, hbranch, hconsequent.peak, hjump, halternate.peak_of_le (Nat.le_succ h), harms,
    ← Nat.max_assoc, ← Nat.max_assoc, Nat.add_max_add_left, Nat.add_max_add_left, Nat.max_assoc]

end Climbs

end Line

namespace Expr

open Line (Climbs)

variable (prefixes : List Text)

mutual

/-- The code of a tree climbs as high as the tree needs, and leaves one value. -/
theorem climbs_lines (x : Expr) : Climbs (x.lines prefixes) x.need 1 := by
  cases x with
  | lit l => exact Climbs.nil.close rfl rfl rfl
  | var name => exact Climbs.nil.close rfl rfl rfl
  | field owner name => exact (Climbs.nil.close (l := .load owner) rfl rfl rfl).close rfl rfl rfl
  | member target property => exact (climbs_lines target).reduce rfl rfl rfl
  | computed target key => exact (climbs_lines target).combine (climbs_lines key) rfl rfl rfl
  | index target position => exact (climbs_lines target).combine (climbs_lines position) rfl rfl rfl
  | binary op left right => exact (climbs_lines left).combine (climbs_lines right) rfl rfl rfl
  | unary op operand => exact (climbs_lines operand).reduce rfl rfl rfl
  | cond test consequent alternate =>
    exact .cond (climbs_lines test) (climbs_lines consequent) (climbs_lines alternate) _ _
  | call callee args =>
    have hargs := climbs_linesArgs args
    rw [lines, Line.call]
    split
    · exact hargs.close rfl rfl rfl
    · exact hargs.close rfl rfl rfl
  | method receiver name args =>
    exact (climbs_lines receiver).combine (climbs_linesArgs args) rfl rfl rfl
  | group inner => exact climbs_lines inner
  | array elements => exact (climbs_linesAll elements).close rfl rfl rfl
  | object properties => exact (climbs_linesProperties properties).close rfl rfl rfl
  | unknown kind => exact Climbs.nil.close rfl rfl rfl

theorem climbs_linesArgs (xs : List Expr) :
    Climbs (linesArgs prefixes xs) (needArgs xs) xs.length := by
  cases xs with
  | nil => exact .nil
  | cons x xs => exact (climbs_linesArgs xs).append (climbs_lines x)

theorem climbs_linesAll (xs : List Expr) :
    Climbs (linesAll prefixes xs) (needAll xs) xs.length := by
  cases xs with
  | nil => exact .nil
  | cons x xs =>
    have hboth := (climbs_lines x).append (climbs_linesAll xs)
    rwa [Nat.add_comm 1] at hboth

theorem climbs_linesProperties (xs : List (Text × Expr)) :
    Climbs (linesProperties prefixes xs) (needProperties xs) (2 * xs.length) := by
  cases xs with
  | nil => exact .nil
  | cons p xs =>
    have hkey : Climbs [.push (.string p.1)] 1 1 := Climbs.nil.close rfl rfl rfl
    have hvalue := climbs_lines p.2
    have hall := hkey.append (hvalue.append (climbs_linesProperties xs))
    have hpos := hvalue.rise_le
    have hneed : max 1 (max p.2.need (needProperties xs + 1) + 1) = needProperties (p :: xs) := by
      rw [needProperties]
      omega
    have hrise : 1 + (1 + 2 * xs.length) = 2 * (p :: xs).length := by
      rw [List.length_cons]
      omega
    rwa [hneed, hrise] at hall

end

theorem need_pos (x : Expr) : 0 < x.need :=
  (climbs_lines [] x).rise_le

/-! ## Trees without conditionals -/

mutual

/-- Whether there is a conditional in the tree. -/
def branches : Expr → Bool
  | .lit _ | .var _ | .field _ _ | .unknown _ => false
  | .member target _ => branches target
  | .computed target key | .index target key => branches target || branches key
  | .binary _ left right => branches left || branches right
  | .unary _ operand => branches operand
  | .cond _ _ _ => true
  | .call _ args => branchesAny args
  | .method receiver _ args => branches receiver || branchesAny args
  | .group inner => branches inner
  | .array elements => branchesAny elements
  | .object properties => branchesProperties properties

def branchesAny : List Expr → Bool
  | [] => false
  | x :: xs => branches x || branchesAny xs

def branchesProperties : List (Text × Expr) → Bool
  | [] => false
  | (_, x) :: xs => branches x || branchesProperties xs

end

section

variable {env : Environment} {prefixes : List Text}

mutual

/-- Without conditionals, every evaluation holds as many values as the tree needs. -/
theorem peak_eq_need (x : Expr) (hx : x.branches = false) (d : Nat) (s : Store) :
    x.peak env prefixes d s = d + x.need := by
  cases x with
  | lit l => rfl
  | var name => rfl
  | field owner name => rfl
  | member target property => exact peak_eq_need target hx d s
  | computed target key =>
    obtain ⟨htarget, hkey⟩ := Bool.or_eq_false_iff.1 hx
    rw [peak, peak_eq_need target htarget, peak_eq_need key hkey, need]
    omega
  | index target position =>
    obtain ⟨htarget, hposition⟩ := Bool.or_eq_false_iff.1 hx
    rw [peak, peak_eq_need target htarget, peak_eq_need position hposition, need]
    omega
  | binary op left right =>
    obtain ⟨hleft, hright⟩ := Bool.or_eq_false_iff.1 hx
    rw [peak, peak_eq_need left hleft, peak_eq_need right hright, need]
    omega
  | unary op operand => exact peak_eq_need operand hx d s
  | cond test consequent alternate => cases hx
  | call callee args =>
    have hargs := peakArgs_eq_need args hx d s
    rw [peak, need]
    omega
  | method receiver name args =>
    obtain ⟨hreceiver, hargs⟩ := Bool.or_eq_false_iff.1 hx
    have hargs := peakArgs_eq_need args hargs (d + 1) (receiver.eval env prefixes d s).2
    have hpos := receiver.need_pos
    rw [peak, peak_eq_need receiver hreceiver, need]
    omega
  | group inner => exact peak_eq_need inner hx d s
  | array elements =>
    have helements := peakAll_eq_need elements hx d s
    rw [peak, need]
    omega
  | object properties =>
    have hproperties := peakProperties_eq_need properties hx d s
    rw [peak, need]
    omega
  | unknown kind => rfl

theorem peakArgs_eq_need (xs : List Expr) (hxs : branchesAny xs = false) (d : Nat) (s : Store) :
    max d (peakArgs env prefixes xs d s) = d + needArgs xs := by
  cases xs with
  | nil => exact Nat.max_zero d
  | cons x xs =>
    obtain ⟨hx, hrest⟩ := Bool.or_eq_false_iff.1 hxs
    have hargs := peakArgs_eq_need xs hrest d s
    rw [peakArgs, peak_eq_need x hx, needArgs]
    omega

theorem peakAll_eq_need (xs : List Expr) (hxs : branchesAny xs = false) (d : Nat) (s : Store) :
    max d (peakAll env prefixes xs d s) = d + needAll xs := by
  cases xs with
  | nil => exact Nat.max_zero d
  | cons x xs =>
    obtain ⟨hx, hrest⟩ := Bool.or_eq_false_iff.1 hxs
    have hall := peakAll_eq_need xs hrest (d + 1) (x.eval env prefixes d s).2
    have hpos := x.need_pos
    rw [peakAll, peak_eq_need x hx, needAll]
    omega

theorem peakProperties_eq_need (xs : List (Text × Expr)) (hxs : branchesProperties xs = false)
    (d : Nat) (s : Store) :
    max d (peakProperties env prefixes xs d s) = d + needProperties xs := by
  cases xs with
  | nil => exact Nat.max_zero d
  | cons p xs =>
    obtain ⟨hx, hrest⟩ := Bool.or_eq_false_iff.1 hxs
    have hall := peakProperties_eq_need xs hrest (d + 2) (p.2.eval env prefixes (d + 1) s).2
    have hpos := p.2.need_pos
    rw [peakProperties, peak_eq_need p.2 hx, needProperties]
    omega

end

end

/-! ## Programs -/

variable {o : CompileOptions} {x : Expr}

theorem peak_code : Line.peak 0 (x.code o) = (x.target o).need := by
  have hpeak := (climbs_lines o.prefixes (x.target o)).peak 0 []
  rw [List.append_nil, Line.peak, Nat.zero_add, Nat.max_zero, Nat.zero_max] at hpeak
  exact hpeak

/-- A program states the need of the tree that was compiled. -/
theorem stackNeed_compile (hok : (x.compile o).failure = none) :
    (x.compile o).stackNeed = (x.target o).need := by
  have hemits := x.emits_code o
  have hnone := error_written_of_ok hok
  have hroom := ((x.failure_compile_eq_none_iff o).1 hok).1
  have hlength := extent_of_ok hok
  have hmax : ((x.target o).emit o.emitter).maxDepth = (x.target o).need := by
    have hpeak : (x.written o).maxDepth = max 0 (Line.peak 0 ((x.code o).take (x.extent o))) :=
      o.emitter.maxDepth_putAll (x.code o)
    rw [List.take_of_length_le (by omega), peak_code, Nat.zero_max] at hpeak
    exact hemits.agrees.maxDepth.trans hpeak
  -- The halt finds the one value of the tree, which is not more than the tree needs.
  have hdepth : ((x.target o).emit o.emitter).depth = 0 + 1 :=
    rise_lines o.prefixes (x.target o) ▸ (hemits.of_none (hemits.agrees.error.trans hnone)).2.2
  have hpos := (x.target o).need_pos
  show (x.emitProgram o).maxDepth = (x.target o).need
  rw [emitProgram_eq, Emitter.append_halt, maxInstructions_emit, size_emit, if_neg (by omega)]
  show max _ _ = _
  rw [hmax, hdepth]
  exact Nat.max_eq_left hpos

/-- A program that was compiled without failure states the need of its tree. If the tree
    has no conditional, a run faults exactly if the stack may not hold that many values,
    and then it yields null and says which limit was met. -/
theorem stackNeed_exact (o : CompileOptions) (x : Expr) (hok : (x.compile o).failure = none) :
    (x.compile o).stackNeed = (x.target o).need ∧
    ((x.target o).branches = false → (x.compile o).words.size < 4294967296 →
      ∀ (env : Environment) (locals : Entries Value), env.Quiet →
        ∃ v c, Context.run { locals } env (x.compile o) = (.ok v, c) ∧
          (c.fault ≠ none ↔ env.maxStack < (x.compile o).stackNeed) ∧
          (c.fault ≠ none → v = .null ∧ c.fault.map Fault.message =
            some ("stack overflow (limit " ++ Text.ofInt env.maxStack ++ ")"))) := by
  have hneed := stackNeed_compile hok
  refine ⟨hneed, fun hplain hsize env locals hq => ?_⟩
  have hextent := extent_lt_of_size hsize
  have hpos := (x.target o).need_pos
  have hpeak : (x.target o).peak env o.prefixes 0 ⟨locals, []⟩ = (x.compile o).stackNeed := by
    rw [peak_eq_need _ hplain, hneed, Nat.zero_add]
  by_cases hlt : env.maxStack < (x.compile o).stackNeed
  · have hroom : env.room < (x.target o).peak env o.prefixes 0 ⟨locals, []⟩ := by
      rw [Environment.room]
      omega
    obtain ⟨c, hrun, hfault⟩ := run_of_lt_peak hok hextent hq hroom
    refine ⟨_, c, hrun, iff_of_true ?_ hlt, fun _ => ⟨rfl, ?_⟩⟩
    · rw [hfault]
      exact Option.some_ne_none _
    · rw [hfault]
      rfl
  · have hroom : (x.target o).peak env o.prefixes 0 ⟨locals, []⟩ ≤ env.room := by
      rw [Environment.room]
      omega
    exact ⟨_, _, run_of_peak_le hok hextent hq hroom, iff_of_false (absurd rfl) hlt,
      fun hfault => absurd rfl hfault⟩

/-- `[a, {k: f(b, c)}]` -/
def crowded : Expr :=
  .array [.var "a", .object [("k", .call "f" [.var "b", .var "c"])]]

theorem stackNeed_crowded :
    (crowded.compile {}).stackNeed = 4 ∧
    (∃ c, Context.run {} { maxStack := 3 } (crowded.compile {}) = (.ok .null, c) ∧
      c.fault.map Fault.message = some "stack overflow (limit 3)") ∧
    ∃ v c, Context.run {} { maxStack := 4 } (crowded.compile {}) = (.ok v, c) ∧
      c.fault = none := by
  obtain ⟨hneed, hruns⟩ := stackNeed_exact {} crowded (by decide)
  have hquiet : ∀ n, Environment.Quiet { maxStack := n } := fun n => nofun
  have hfour : (crowded.compile {}).stackNeed = 4 := hneed.trans (by decide)
  obtain ⟨v, c, hrun, hfault, hvalue⟩ :=
    hruns (by decide) (by decide) { maxStack := 3 } [] (hquiet 3)
  obtain ⟨v', c', hrun', hfault', -⟩ :=
    hruns (by decide) (by decide) { maxStack := 4 } [] (hquiet 4)
  rw [hfour] at hfault hfault'
  obtain ⟨rfl, hmessage⟩ := hvalue (hfault.2 (by decide))
  have hnone : c'.fault = none := Decidable.not_not.1 fun hne => absurd (hfault'.1 hne) (by decide)
  exact ⟨hfour, ⟨c, hrun, hmessage.trans (by decide)⟩, v', c', hrun', hnone⟩

end Expr

end Reckon
