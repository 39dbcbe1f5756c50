-- SUMMARY: Emitting a tree writes its lines one by one, up to where a limit is met, and directs the jumps.
import Reckon.Proofs.Writing

/-!
# Emission

The emitter of a tree writes the lines of the tree one by one, except that it
appends jumps before it knows how far they go and directs them afterwards: to
where they belong, or to the end of what was written. So the program of a tree
consists of the lines of the tree, cut off where a limit was met, and of a halt.
-/

namespace Reckon

/-! ## Lines whose jumps stay inside -/

namespace Line

/-- No jump goes beyond the end of the lines. -/
def Closed : List Line → Prop
  | [] => True
  | l :: ls => (∀ skip ∈ l.skip?, skip ≤ ls.length) ∧ Closed ls

theorem Closed.append {ls ls' : List Line} (h : Closed ls) (h' : Closed ls') :
    Closed (ls ++ ls') := by
  induction ls with
  | nil => exact h'
  | cons l ls ih =>
    refine ⟨fun skip hskip => ?_, ih h.2⟩
    show skip ≤ (ls ++ ls').length
    rw [List.length_append]
    exact Nat.le_add_right_of_le (h.1 skip hskip)

theorem clip_of_le {l : Line} {most : Nat} (h : ∀ skip ∈ l.skip?, skip ≤ most) :
    l.clip most = l := by
  cases l with
  | jumpIfFalse skip => rw [clip, Nat.min_eq_left (h skip rfl)]
  | jump skip => rw [clip, Nat.min_eq_left (h skip rfl)]
  | _ => rfl

theorem cut_zero (ls : List Line) : cut 0 ls = [] := by
  cases ls <;> rfl

theorem cut_append_of_le {k : Nat} {ls : List Line} (h : k ≤ ls.length) (ls' : List Line) :
    cut k (ls ++ ls') = cut k ls := by
  fun_induction cut k ls with
  | case1 => exact cut_zero _
  | case2 k =>
    rw [List.length_nil, Nat.le_zero] at h
    subst h
    exact cut_zero _
  | case3 k l ls ih =>
    rw [List.cons_append, cut, ih (Nat.le_of_succ_le_succ h)]

/-- Cutting behind closed lines leaves them as they are. -/
theorem cut_append {ls : List Line} (h : Closed ls) (k : Nat) (ls' : List Line) :
    cut (ls.length + k) (ls ++ ls') = ls ++ cut k ls' := by
  induction ls with
  | nil => rw [List.length_nil, Nat.zero_add, List.nil_append, List.nil_append]
  | cons l ls ih =>
    have hlength : (l :: ls).length + k = (ls.length + k) + 1 := by
      rw [List.length_cons]
      omega
    have hclip : l.clip (ls.length + k) = l :=
      clip_of_le fun skip hskip => Nat.le_add_right_of_le (h.1 skip hskip)
    rw [hlength, List.cons_append, cut, hclip, ih h.2, List.cons_append]

theorem cut_length {ls : List Line} (h : Closed ls) : cut ls.length ls = ls := by
  simpa [cut_zero] using cut_append h 0 []

end Line

/-! ## Emission of lines -/

namespace Emitter

/-- The emitter has appended the lines. -/
structure Appends (e : Emitter) (ls : List Line) (e' : Emitter) : Prop where
  code : ∀ k, e'.constants.Extends k →
    e'.code.toList = e.code.toList ++ ls.map (·.instruction k)
  has : ∀ l ∈ ls, ∀ a ∈ l.constant?, e'.constants.Has a

namespace Appends

variable {e e' e'' : Emitter} {ls ls' : List Line}

theorem nil (h : e'.code = e.code) : e.Appends [] e' :=
  ⟨fun _ _ => by rw [h, List.map_nil, List.append_nil], nofun⟩

theorem size (h : e.Appends ls e') : e'.code.size = e.code.size + ls.length := by
  rw [← Array.length_toList, h.code _ (.refl _), List.length_append, List.length_map,
    Array.length_toList]

theorem append (h : e.Appends ls e') (h' : e'.Appends ls' e'')
    (hextends : e'.constants.Extends e''.constants) : e.Appends (ls ++ ls') e'' := by
  refine ⟨fun k hk => ?_, fun l hl a ha => ?_⟩
  · rw [h'.code k hk, h.code k (hextends.trans hk), List.map_append, List.append_assoc]
  · rcases List.mem_append.1 hl with hl | hl
    · exact hextends.has (h.has l hl a ha)
    · exact h'.has l hl a ha

/-- What was appended is what it is cut off at. -/
theorem cut (h : e.Appends ls e') (hls : Line.cut ls.length ls' = ls) :
    e.Appends (Line.cut (e'.code.size - e.code.size) ls') e' := by
  rwa [h.size, Nat.add_sub_cancel_left, hls]

end Appends

/-- The emitter has written the lines: those that were appended have their jumps
    directed, and all else is as if the lines had been written one by one. -/
structure Emits (e : Emitter) (ls : List Line) (e' : Emitter) : Prop where
  closed : Line.Closed ls
  agrees : (e.putAll ls).Agrees e'
  appends : e.Appends (Line.cut (e'.code.size - e.code.size) ls) e'

namespace Emits

variable {e e' e'' : Emitter} {ls ls' : List Line}

theorem extends_constants (h : e.Emits ls e') : e.constants.Extends e'.constants :=
  h.agrees.constants ▸ e.extends_putAll ls

theorem prefixes (h : e.Emits ls e') : e'.prefixes = e.prefixes :=
  h.agrees.prefixes.trans (e.prefixes_putAll ls)

theorem size_le (h : e.Emits ls e') :
    e.code.size ≤ e'.code.size ∧ e'.code.size ≤ e.code.size + ls.length :=
  h.agrees.size ▸ e.size_putAll_le ls

theorem of_error (h : e.Emits ls e') (herror : e.error ≠ none) :
    e'.error ≠ none ∧ e'.code = e.code := by
  have hrefused := putAll_of_error herror ls
  have hsize : e'.code.size = e.code.size := h.agrees.size.trans (congrArg _ hrefused.code)
  have hcode := h.appends.code _ (.refl _)
  rw [hsize, Nat.sub_self, Line.cut_zero, List.map_nil, List.append_nil] at hcode
  exact ⟨h.agrees.error ▸ hrefused.after, Array.toList_inj.1 hcode⟩

theorem of_none (h : e.Emits ls e') (hnone : e'.error = none) :
    e.error = none ∧ e'.code.size = e.code.size + ls.length ∧
      e'.depth = e.depth + Line.rise ls := by
  rw [h.agrees.error] at hnone
  obtain ⟨hbefore, hsize, hdepth⟩ := putAll_of_none hnone
  exact ⟨hbefore, h.agrees.size.trans hsize, (h.agrees.depth hnone).trans hdepth⟩

theorem exists_appends (h : e.Emits ls e') :
    ∃ n, n ≤ ls.length ∧ (Line.cut n ls).length = n ∧ e.Appends (Line.cut n ls) e' := by
  have hle : e'.code.size - e.code.size ≤ ls.length := by
    have := h.size_le
    omega
  exact ⟨_, hle, by rw [Line.length_cut, Nat.min_eq_left hle], h.appends⟩

/-- Without an error all lines were appended. -/
theorem appends_of_none (h : e.Emits ls e') (hnone : e'.error = none) : e.Appends ls e' := by
  have happends := h.appends
  rwa [(h.of_none hnone).2.1, Nat.add_sub_cancel_left, Line.cut_length h.closed] at happends

theorem nil (e : Emitter) : e.Emits [] e :=
  ⟨trivial, .refl e, by rw [Nat.sub_self]; exact .nil rfl⟩

/-- One line that is no jump. -/
theorem put (e : Emitter) {l : Line} (hskip : l.skip? = none) : e.Emits [l] (e.put l) := by
  have hclosed : Line.Closed [l] := by
    refine ⟨?_, trivial⟩
    rw [hskip]
    nofun
  refine ⟨hclosed, .refl _, ?_⟩
  rcases e.put_cases l with hwritten | hrefused
  · have hsize : (e.put l).code.size - e.code.size = [l].length := by
      rw [hwritten.code, Array.size_push, List.length_singleton]
      omega
    rw [hsize, Line.cut_length hclosed]
    refine ⟨fun k hk => ?_, fun l' hl' => ?_⟩
    · rw [hwritten.code, Array.toList_push, List.map_singleton,
        Line.instruction_extends hk hwritten.has]
    · rw [List.mem_singleton.1 hl']
      exact hwritten.has
  · rw [hrefused.code, Nat.sub_self, Line.cut_zero]
    exact .nil hrefused.code

/-- Two pieces of code after each other. -/
theorem append (h : e.Emits ls e') (h' : e'.Emits ls' e'') : e.Emits (ls ++ ls') e'' := by
  refine ⟨h.closed.append h'.closed, ?_, ?_⟩
  · rw [putAll_append]
    exact (h.agrees.putAll ls').trans h'.agrees
  · have hboth := h.appends.append h'.appends h'.extends_constants
    have hle := h.size_le
    have hle' := h'.size_le
    by_cases hnone : e'.error = none
    · obtain ⟨-, hsize, -⟩ := h.of_none hnone
      have hsplit : e''.code.size - e.code.size = ls.length + (e''.code.size - e'.code.size) := by
        omega
      rw [hsize, Nat.add_sub_cancel_left, Line.cut_length h.closed, ← hsize] at hboth
      rwa [hsplit, Line.cut_append h.closed]
    · rw [(h'.of_error hnone).2, Nat.sub_self, Line.cut_zero, List.append_nil] at hboth
      rwa [(h'.of_error hnone).2, Line.cut_append_of_le (by omega)]

end Emits

/-! ## Directing jumps -/

theorem agrees_land (e : Emitter) (slot : Option Nat) : e.Agrees (e.land slot) := by
  cases slot with
  | none => exact .refl e
  | some pc => exact ⟨_, e.depth, Array.size_modify, fun _ => rfl, rfl⟩

theorem prefixes_emit {e e' : Emitter} {effect : Int} {d : Draft} {slot : Option Nat}
    (h : e.emit effect d = (slot, e')) (hop : d.op ≠ .halt) : e'.prefixes = e.prefixes := by
  rcases e.emit_cases effect hop with ⟨x, hemit, -⟩ | ⟨-, hemit⟩
  · rw [(Prod.mk.inj (h.symm.trans hemit)).2]
  · rw [(Prod.mk.inj (h.symm.trans hemit)).2]

/-- Directing the jump in a slot changes that slot only. -/
theorem toList_land {e : Emitter} {before after : List Instruction} {i : Instruction} {slot : Nat}
    (h : e.code.toList = before ++ i :: after) (hslot : slot = before.length) :
    (e.land (some slot)).code.toList =
      before ++ { i with imm := .ofInt (after.length + 1 : Nat) } :: after := by
  subst hslot
  have hoffset : (e.code.size : Int) - before.length = (after.length + 1 : Nat) := by
    rw [← Array.length_toList, h, List.length_append, List.length_cons]
    omega
  simp only [land, Array.toList_modify, h, hoffset]
  rw [List.modify_eq_take_drop, List.take_left, List.drop_left, List.modifyHead_cons]

section Conditional

variable {e₁ e₂ e₃ e₄ e₆ : Emitter} {toElse toEnd : Option Nat} {consequent alternate : List Line}
  (hif : e₁.emit (-1) { op := .jumpIfFalse } = (toElse, e₂)) (hc : e₂.Emits consequent e₃)
  (hjump : e₃.emit 0 { op := .jump } = (toEnd, e₄))
  (ha : ({ e₄.land toElse with depth := e₂.depth } : Emitter).Emits alternate e₆)

include hif hc hjump ha

/-- All but the instructions is as if the lines had been written one by one. -/
theorem agrees_cond (hrise : Line.rise consequent = 1) :
    (e₁.putAll (.jumpIfFalse (consequent.length + 1) ::
      (consequent ++ .jump alternate.length :: alternate))).Agrees (e₆.land toEnd) := by
  have hif' : (e₁.put (.jumpIfFalse (consequent.length + 1))).Agrees e₂ := by
    have happend := (Agrees.refl e₁).append (-1)
      ((Line.jumpIfFalse (consequent.length + 1)).draft 0) { op := .jumpIfFalse } rfl rfl
      (op_draft_ne_halt _ 0)
    have he₂ : e₁.append (-1) { op := .jumpIfFalse } = e₂ := by rw [append, hif]
    rw [he₂] at happend
    rwa [put_plain e₁ rfl rfl]
  have hjump' : (e₃.put (.jump alternate.length)).Agrees { e₄.land toElse with depth := e₂.depth } := by
    have happend := (Agrees.refl e₃).append 0 ((Line.jump alternate.length).draft 0)
      { op := .jump } rfl rfl (op_draft_ne_halt _ 0)
    have he₄ : e₃.append 0 { op := .jump } = e₄ := by rw [append, hjump]
    rw [he₄] at happend
    rw [put_jump]
    refine (happend.trans (agrees_land _ toElse)).withDepth fun hnone => ?_
    rw [← happend.depth hnone]
    rw [← happend.error] at hnone
    rcases e₃.emit_cases 0 (d := { op := .jump }) (by decide) with
      ⟨x, hemit, -⟩ | ⟨⟨hnone₃, -⟩, hemit⟩
    · cases hjump.symm.trans hemit
      cases hnone
    · cases hjump.symm.trans hemit
      have hdepth := (hc.of_none hnone₃).2.2
      rw [hrise] at hdepth
      show e₂.depth = e₃.depth + 0 + -1
      omega
  have hbefore := (hif'.putAll consequent).trans hc.agrees
  have hafter := (hbefore.put (.jump alternate.length)).trans hjump'
  rw [putAll_cons, putAll_append, putAll_cons]
  exact ((hafter.putAll alternate).trans ha.agrees).trans (agrees_land e₆ toEnd)

/-- The first jump is refused: nothing is appended. -/
theorem appends_cond_of_refused (herror : e₂.error ≠ none) (hcode : e₂.code = e₁.code)
    (hslot : toElse = none) : e₁.Appends [] (e₆.land toEnd) := by
  subst hslot
  obtain ⟨herror₃, hcode₃⟩ := hc.of_error herror
  rcases e₃.emit_cases 0 (d := { op := .jump }) nofun with
    ⟨x, hemit, -⟩ | ⟨⟨hnone₃, -⟩, -⟩
  · cases hjump.symm.trans hemit
    obtain ⟨-, hcode₆⟩ := ha.of_error nofun
    exact .nil (hcode₆.trans (hcode₃.trans hcode))
  · exact absurd hnone₃ herror₃

omit hc in
/-- The second jump is refused: the first one goes to the end of what there is of the
    first arm. -/
theorem appends_cond_of_cut (hslot : toElse = some e₁.code.size)
    (hcode : e₂.code = e₁.code.push (Draft.instruction { op := .jumpIfFalse }))
    {error : CompileError} (hend : toEnd = none) (he₄ : e₄ = { e₃ with error := some error })
    {ls : List Line} (hls : e₂.Appends ls e₃) :
    e₁.Appends (.jumpIfFalse ls.length :: ls) (e₆.land toEnd) := by
  subst hslot hend he₄
  have hextends : e₃.constants.Extends e₆.constants := ha.extends_constants
  have hcode₆ : e₆.code = (e₃.land (some e₁.code.size)).code := (ha.of_error nofun).2
  refine ⟨fun k hk => ?_, fun l hl a ha => ?_⟩
  · have hcode₃ := hls.code k (hextends.trans hk)
    rw [hcode, Array.toList_push, List.append_assoc, List.singleton_append] at hcode₃
    have hland := toList_land hcode₃ Array.length_toList.symm
    rw [← hcode₆, List.length_map] at hland
    exact hland
  · rcases List.mem_cons.1 hl with rfl | hl
    · cases ha
    · exact hextends.has (hls.has l hl a ha)

/-- Both jumps are appended: the first one goes to the second arm and the second one to
    the end of what there is of that arm. -/
theorem appends_cond_of_written (hslot : toElse = some e₁.code.size)
    (hcode : e₂.code = e₁.code.push (Draft.instruction { op := .jumpIfFalse }))
    (hend : toEnd = some e₃.code.size) (hnone : e₃.error = none)
    (hcode₄ : e₄.code = e₃.code.push (Draft.instruction { op := .jump }))
    (hconst : e₄.constants = e₃.constants) {ls : List Line}
    (hls : ({ e₄.land toElse with depth := e₂.depth } : Emitter).Appends ls e₆) :
    e₁.Appends (.jumpIfFalse (consequent.length + 1) :: (consequent ++ .jump ls.length :: ls))
      (e₆.land toEnd) := by
  subst hslot hend
  have hextends : e₃.constants.Extends e₆.constants := hconst ▸ ha.extends_constants
  have hc' := hc.appends_of_none hnone
  refine ⟨fun k hk => ?_, fun l hl a ha => ?_⟩
  · have hcode₃ := hc'.code k (hextends.trans hk)
    rw [hcode, Array.toList_push, List.append_assoc, List.singleton_append] at hcode₃
    -- The code before the first jump is directed, then before the second one is.
    have hcode₄' : e₄.code.toList = e₁.code.toList ++ Draft.instruction { op := .jumpIfFalse } ::
        (consequent.map (·.instruction k) ++ [Draft.instruction { op := .jump }]) := by
      rw [hcode₄, Array.toList_push, hcode₃, List.append_assoc, List.cons_append]
    have hland := toList_land hcode₄' Array.length_toList.symm
    have hcode₆ : e₆.code.toList = (e₁.code.toList ++
        (Line.jumpIfFalse (consequent.length + 1)).instruction k ::
          consequent.map (·.instruction k)) ++
        Draft.instruction { op := .jump } :: ls.map (·.instruction k) := by
      refine (hls.code k hk).trans ?_
      rw [hland, List.length_append, List.length_map, List.append_assoc, List.append_assoc,
        List.cons_append, List.cons_append, List.append_assoc, List.singleton_append]
      rfl
    have hsize : e₃.code.size = (e₁.code.toList ++
        (Line.jumpIfFalse (consequent.length + 1)).instruction k ::
          consequent.map (·.instruction k)).length := by
      rw [← Array.length_toList, hcode₃, List.length_append, List.length_append, List.length_cons,
        List.length_cons]
    rw [toList_land hcode₆ hsize, List.length_map, List.append_assoc, List.map_cons,
      List.map_append]
    rfl
  · rcases List.mem_cons.1 hl with rfl | hl
    · cases ha
    · rcases List.mem_append.1 hl with hl | hl
      · exact hextends.has (hc'.has l hl a ha)
      · rcases List.mem_cons.1 hl with rfl | hl
        · cases ha
        · exact hls.has l hl a ha

theorem emits_cond (hrise : Line.rise consequent = 1) :
    e₁.Emits (.jumpIfFalse (consequent.length + 1) ::
      (consequent ++ .jump alternate.length :: alternate)) (e₆.land toEnd) := by
  refine ⟨⟨?_, hc.closed.append ⟨?_, ha.closed⟩⟩, agrees_cond hif hc hjump ha hrise, ?_⟩
  · rintro skip ⟨⟩
    show _ ≤ (consequent ++ .jump alternate.length :: alternate).length
    rw [List.length_append, List.length_cons]
    omega
  · rintro skip ⟨⟩
    exact Nat.le_refl _
  rcases e₁.emit_cases (-1) (d := { op := .jumpIfFalse }) nofun with
    ⟨x, hemit, -⟩ | ⟨-, hemit⟩
  · have heq := Prod.mk.inj (hif.symm.trans hemit)
    refine (appends_cond_of_refused hif hc hjump ha ?_ ?_ heq.1).cut (Line.cut_zero _)
    · rw [heq.2]
      nofun
    · rw [heq.2]
  have heq := Prod.mk.inj (hif.symm.trans hemit)
  have hcode : e₂.code = e₁.code.push (Draft.instruction { op := .jumpIfFalse }) := by rw [heq.2]
  rcases e₃.emit_cases 0 (d := { op := .jump }) nofun with
    ⟨x, hemit', -⟩ | ⟨⟨hnone, -⟩, hemit'⟩
  · have heq' := Prod.mk.inj (hjump.symm.trans hemit')
    obtain ⟨n, hn, hlength, happends⟩ := hc.exists_appends
    refine (appends_cond_of_cut hif hjump ha heq.1 hcode heq'.1 heq'.2 happends).cut ?_
    rw [List.length_cons, hlength, Line.cut, Line.cut_append_of_le hn, Line.clip,
      Nat.min_eq_right (by omega)]
  · have heq' := Prod.mk.inj (hjump.symm.trans hemit')
    obtain ⟨n, hn, hlength, happends⟩ := ha.exists_appends
    refine (appends_cond_of_written hif hc hjump ha heq.1 hcode heq'.1 hnone ?_ ?_
      happends).cut ?_
    · rw [heq'.2]
    · rw [heq'.2]
      rfl
    · rw [List.length_cons, Line.cut, List.length_append, Line.cut_append hc.closed,
        List.length_cons, Line.cut, hlength, Line.clip, Line.clip, Nat.min_eq_left (by omega),
        Nat.min_eq_right hn]

end Conditional

/-! ## Single instructions -/

theorem emits_plain (e : Emitter) {l : Line} {effect : Int} {d : Draft} (hconst : l.constant? = none)
    (hskip : l.skip? = none) (hshift : l.shift = l.effect) (heffect : l.effect = effect)
    (hdraft : l.draft 0 = d) : e.Emits [l] (e.append effect d) := by
  have hput := Emits.put e hskip
  rwa [put_plain e hconst hshift, heffect, hdraft] at hput

theorem emits_named (e : Emitter) {l : Line} {effect : Int} {op : Opcode} {name : Text} {imm : Int}
    (hconst : l.constant? = some (.text name)) (hskip : l.skip? = none)
    (hshift : l.shift = l.effect) (heffect : l.effect = effect)
    (hdraft : ∀ i, l.draft i = { op, index := i, imm }) :
    e.Emits [l] (e.appendNamed effect op name imm) := by
  have hput : e.put l = e.appendNamed effect op name imm := by
    rw [put, hconst, store, appendNamed]
    rcases e.addString name with ⟨_ | i, e'⟩
    · rfl
    · simp only [hdraft, hshift, heffect, Int.sub_self, Int.add_zero]
  exact hput ▸ Emits.put e hskip

theorem emits_literal (e : Emitter) (l : Literal) : e.Emits [.push l] (e.appendLiteral l) := by
  cases l with
  | int n =>
    by_cases hn : fitsImmediate n
    · simp only [appendLiteral, appendInt, if_pos hn]
      exact emits_plain e (if_pos hn) rfl rfl rfl (if_pos hn)
    · have hput : e.put (.push (.int n)) = e.appendLiteral (.int n) := by
        simp only [put, Line.constant?, if_neg hn, store, appendLiteral, appendInt, Line.draft, Line.shift,
          Int.sub_self, Int.add_zero]
        rfl
      exact hput ▸ Emits.put e rfl
  | float x => exact emits_named e rfl rfl rfl rfl fun _ => rfl
  | string s => exact emits_named e rfl rfl rfl rfl fun _ => rfl
  | bool b => exact emits_plain e rfl rfl rfl rfl rfl
  | null => exact emits_plain e rfl rfl rfl rfl rfl

end Emitter

/-! ## Trees -/

namespace Expr

open Emitter (balanced emits_plain emits_named emits_literal emits_cond)

/-- The check on the depth behind a node never fails. -/
theorem balanced_eq {prefixes : List Text} {x : Expr} {e e' : Emitter}
    (h : e.Emits (x.lines prefixes) e') : balanced x e.depth e' = e' := by
  by_cases hnone : e'.error = none
  · have hdepth : e'.depth = e.depth + 1 := rise_lines prefixes x ▸ (h.of_none hnone).2.2
    simp only [balanced, hdepth, ne_eq, not_true_eq_false, decide_false, Bool.and_false,
      Bool.false_eq_true, if_false]
  · obtain ⟨error, herror⟩ := Option.ne_none_iff_exists'.1 hnone
    simp only [balanced, herror, Option.isNone_some, Bool.false_and, Bool.false_eq_true, if_false]

theorem emits_call (e : Emitter) (callee : Text) (argc : Nat) :
    e.Emits [.call e.prefixes callee argc]
      (e.appendNamed (1 - argc) (e.callOpcode callee) callee argc) := by
  simp only [Line.call, Emitter.callOpcode]
  split
  · exact emits_named e rfl rfl rfl rfl fun _ => rfl
  · exact emits_named e rfl rfl rfl rfl fun _ => rfl

variable {prefixes : List Text}

mutual

/-- Emitting a tree writes its lines. -/
theorem emits_lines (x : Expr) {e : Emitter} (he : e.prefixes = prefixes) :
    e.Emits (x.lines prefixes) (x.emit e) := by
  cases x with
  | lit l => exact emits_literal e l
  | var name => exact emits_named e rfl rfl rfl rfl fun _ => rfl
  | field owner name =>
    have howner : e.Emits [.load owner] (e.appendNamed 1 .loadVar owner 0) :=
      emits_named e rfl rfl rfl rfl fun _ => rfl
    exact howner.append (emits_named _ rfl rfl rfl rfl fun _ => rfl)
  | member target property =>
    have htarget := emits_lines target he
    simp only [emit, balanced_eq htarget]
    exact htarget.append (emits_named _ rfl rfl rfl rfl fun _ => rfl)
  | computed target key =>
    have htarget := emits_lines target he
    have hkey := emits_lines key (htarget.prefixes.trans he)
    simp only [emit, balanced_eq htarget, balanced_eq hkey]
    exact htarget.append (hkey.append (emits_plain _ rfl rfl rfl rfl rfl))
  | index target position =>
    have htarget := emits_lines target he
    have hposition := emits_lines position (htarget.prefixes.trans he)
    simp only [emit, balanced_eq htarget, balanced_eq hposition]
    exact htarget.append (hposition.append (emits_plain _ rfl rfl rfl rfl rfl))
  | binary op left right =>
    have hleft := emits_lines left he
    have hright := emits_lines right (hleft.prefixes.trans he)
    simp only [emit, balanced_eq hleft, balanced_eq hright]
    exact hleft.append (hright.append (emits_plain _ rfl rfl rfl rfl rfl))
  | unary op operand =>
    have hoperand := emits_lines operand he
    simp only [emit, balanced_eq hoperand]
    exact hoperand.append (emits_plain _ rfl rfl rfl rfl rfl)
  | cond test consequent alternate =>
    have htest := emits_lines test he
    simp only [emit, balanced_eq htest]
    cases hif : (emit test e).emit (-1) { op := .jumpIfFalse } with
    | mk toElse e₂ =>
      have he₂ : e₂.prefixes = prefixes := by
        rw [Emitter.prefixes_emit hif nofun, htest.prefixes, he]
      have hconsequent := emits_lines consequent he₂
      simp only [balanced_eq hconsequent]
      cases hjump : (emit consequent e₂).emit 0 { op := .jump } with
      | mk toEnd e₄ =>
        have he₄ : (e₄.land toElse).prefixes = prefixes := by
          rw [(e₄.agrees_land toElse).prefixes, Emitter.prefixes_emit hjump nofun,
            hconsequent.prefixes, he₂]
        have halternate := emits_lines alternate
          (e := { e₄.land toElse with depth := e₂.depth }) he₄
        rw [balanced_eq halternate]
        exact htest.append (emits_cond hif hconsequent hjump halternate (rise_lines _ _))
  | call callee args =>
    have hargs := emits_linesArgs args he
    have hcall := emits_call (emitArgs args e) callee args.length
    rw [hargs.prefixes, he] at hcall
    exact hargs.append hcall
  | method receiver name args =>
    have hreceiver := emits_lines receiver he
    have hargs := emits_linesArgs args (hreceiver.prefixes.trans he)
    simp only [emit, balanced_eq hreceiver]
    refine hreceiver.append (hargs.append (emits_named _ rfl rfl rfl ?_ fun _ => rfl))
    simp only [Line.effect, Line.pushes, Line.pops]
    omega
  | group inner => exact emits_lines inner he
  | array elements =>
    have helements := emits_linesAll elements he
    exact helements.append (emits_plain _ rfl rfl rfl rfl rfl)
  | object properties =>
    have hproperties := emits_linesProperties properties he
    exact hproperties.append (emits_plain _ rfl rfl rfl rfl rfl)
  | unknown kind => exact emits_plain e rfl rfl rfl rfl rfl

theorem emits_linesArgs (xs : List Expr) {e : Emitter} (he : e.prefixes = prefixes) :
    e.Emits (linesArgs prefixes xs) (emitArgs xs e) := by
  cases xs with
  | nil => exact .nil e
  | cons x xs =>
    have hargs := emits_linesArgs xs he
    have hx := emits_lines x (hargs.prefixes.trans he)
    simp only [emitArgs, balanced_eq hx]
    exact hargs.append hx

theorem emits_linesAll (xs : List Expr) {e : Emitter} (he : e.prefixes = prefixes) :
    e.Emits (linesAll prefixes xs) (emitAll xs e) := by
  cases xs with
  | nil => exact .nil e
  | cons x xs =>
    have hx := emits_lines x he
    have hall := emits_linesAll xs (hx.prefixes.trans he)
    simp only [emitAll, balanced_eq hx]
    exact hx.append hall

theorem emits_linesProperties (xs : List (Text × Expr)) {e : Emitter} (he : e.prefixes = prefixes) :
    e.Emits (linesProperties prefixes xs) (emitProperties xs e) := by
  cases xs with
  | nil => exact .nil e
  | cons p xs =>
    have hkey : e.Emits [.push (.string p.1)] (e.appendNamed 1 .pushString p.1 0) :=
      emits_named e rfl rfl rfl rfl fun _ => rfl
    have hx := emits_lines p.2 (hkey.prefixes.trans he)
    have hproperties := emits_linesProperties xs (hx.prefixes.trans (hkey.prefixes.trans he))
    simp only [emitProperties, balanced_eq hx]
    exact hkey.append (hx.append hproperties)

end

end Expr

end Reckon
