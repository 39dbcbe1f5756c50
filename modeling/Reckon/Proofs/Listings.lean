-- SUMMARY: Programs with the same listing run in the same way: a listing shows all that the machine uses of an instruction.
import Reckon.Code.Listing
import Reckon.Proofs.Delimiting
import Reckon.Proofs.Dependence

/-!
# What a listing tells

The source text above the instructions may have line ends and look like lines
of a listing itself, but an instruction never takes more than one line. So the
number of instructions, which stands in the first line, tells which lines show
them: the last ones. A line shows the name of the operation and its operand,
with constants in place of their positions. Both can be told from the line, and
the machine uses no more than these.
-/

namespace Reckon

/-! ## The ends of texts -/

namespace Text

/-- The text ends, and not with white space. -/
def Solid (t : Text) : Prop := ∃ init last, t.units = init ++ [last] ∧ isBlank last = false

theorem Solid.append {t : Text} (h : t.Solid) (s : Text) : (s ++ t).Solid := by
  obtain ⟨init, last, ht, hlast⟩ := h
  exact ⟨s.units ++ init, last, by rw [units_append, ht, List.append_assoc], hlast⟩

theorem solid_of_forall {t : Text} (hne : t ≠ empty) (h : ∀ u ∈ t.units, isBlank u = false) :
    t.Solid := by
  obtain ⟨us⟩ := t
  rcases List.eq_nil_or_concat us with rfl | ⟨init, last, hus⟩
  · exact absurd rfl hne
  · rw [List.concat_eq_append] at hus
    subst hus
    exact ⟨init, last, rfl, h last (by simp)⟩

/-- Blanks behind a text are cut off, and no more. -/
theorem Solid.trimEnd_padEnd {t : Text} (h : t.Solid) (s : Text) (width : Nat) :
    (s ++ t.padEnd width).trimEnd = s ++ t := by
  obtain ⟨init, last, ht, hlast⟩ := h
  have hblank : ∀ u ∈ List.replicate (width - t.length) (unit ' '), isBlank u = true := by
    intro u hu
    rw [(List.mem_replicate.1 hu).2]
    decide
  have hdrop : ((s ++ t.padEnd width).units.reverse.dropWhile isBlank) = (s ++ t).units.reverse := by
    simp only [padEnd, units_append, ht]
    rw [List.reverse_append, List.reverse_append, List.reverse_replicate, List.append_assoc,
      List.dropWhile_append_of_pos hblank, List.reverse_append, List.reverse_singleton,
      List.singleton_append, List.cons_append, List.dropWhile_cons_of_neg (by simp [hlast]),
      List.reverse_append, List.reverse_append, List.reverse_singleton, List.singleton_append,
      List.cons_append]
  rw [trimEnd, trimEndWhere, hdrop, List.reverse_reverse]

theorem Solid.trimEnd {t : Text} (h : t.Solid) : t.trimEnd = t := by
  have hpad := h.trimEnd_padEnd empty 0
  have hzero : t.padEnd 0 = t := by
    rw [padEnd, Nat.zero_sub, List.replicate_zero, List.append_nil]
  rwa [hzero] at hpad

theorem not_isBlank_of_isNumberUnit {u : UInt16} (h : isNumberUnit u = true) :
    isBlank u = false := by
  have hletters : (ofString "NaN" ++ ofString "Infinity").units.all (!isBlank ·) = true := by
    decide
  rcases Bool.or_eq_true_iff.1 h with hnumeric | hletter
  · exact not_isBlank_of_isNumeric hnumeric
  · simpa using List.all_eq_true.1 hletters u (List.contains_iff_mem.1 hletter)

theorem solid_ofInt (n : Int) : (ofInt n).Solid := by
  apply solid_of_forall
  · intro hempty
    have hunits := congrArg units hempty
    unfold ofInt at hunits
    split at hunits
    · cases hunits
    · exact Decimal.digits_ne_nil ⟨n.natAbs, 0⟩ hunits
  · exact fun u hu => not_isBlank_of_isNumberUnit (isNumberUnit_ofInt hu)

theorem solid_constantText (x : Double) : x.constantText.Solid := by
  apply solid_of_forall
  · intro hempty
    have hzero : x = Double.zero false := by
      rw [← Double.toDouble_constantText x, hempty]
      rfl
    rw [hzero] at hempty
    cases hempty
  · exact fun u hu => not_isBlank_of_isNumberUnit (Double.isNumberUnit_constantText hu)

theorem solid_quoted (t : Text) : t.quoted.Solid :=
  ⟨unit '"' :: t.points.flatMap quotePoint, unit '"', rfl, by decide⟩

/-! ## Line ends -/

/-- The text has no line end. -/
def OneLine (t : Text) : Prop := unit '\n' ∉ t.units

instance (t : Text) : Decidable t.OneLine := inferInstanceAs (Decidable (unit '\n' ∉ t.units))

theorem OneLine.append {s t : Text} (hs : s.OneLine) (ht : t.OneLine) : (s ++ t).OneLine :=
  fun hmem => (List.mem_append.1 hmem).elim hs ht

theorem oneLine_of_forall {t : Text} (h : ∀ u ∈ t.units, isBlank u = false) : t.OneLine := by
  intro hmem
  cases h _ hmem

theorem oneLine_blanks (n : Nat) : OneLine ⟨List.replicate n (unit ' ')⟩ := by
  intro hmem
  cases (List.mem_replicate.1 hmem).2

theorem oneLine_ofInt (n : Int) : (ofInt n).OneLine :=
  oneLine_of_forall fun _ hu => not_isBlank_of_isNumberUnit (isNumberUnit_ofInt hu)

theorem oneLine_ofNat (n : Nat) : (ofNat n).OneLine :=
  oneLine_of_forall fun _ hu => not_isBlank_of_isNumberUnit (isNumberUnit_ofNat hu)

theorem newline_not_mem_quotePoint (u : UInt16) : unit '\n' ∉ quotePoint u.toNat := by
  have hhex : ∀ d, d < 16 → unit '\n' ≠ hexDigit d := by
    have hall : ∀ d : Fin 16, unit '\n' ≠ hexDigit d := by decide
    exact fun d hd => hall ⟨d, hd⟩
  cases hu : isEscaped u.toNat with
  | false =>
    rw [quotePoint_of_not_isEscaped hu, unitsOfPoint_toNat, List.mem_singleton]
    rintro rfl
    cases hu
  | true =>
    fun_cases quotePoint u.toNat with
    | case8 =>
      simp only [hexEscape, List.mem_cons, List.not_mem_nil, or_false, not_or]
      exact ⟨by decide, by decide, hhex _ (Nat.mod_lt _ (by decide)),
        hhex _ (Nat.mod_lt _ (by decide)), hhex _ (Nat.mod_lt _ (by decide)),
        hhex _ (Nat.mod_lt _ (by decide))⟩
    | case9 => simp_all [isEscaped]
    | _ => decide

/-- Line ends are escaped between quotes. -/
theorem oneLine_quoted (t : Text) : t.quoted.OneLine := by
  have hpoints : ∀ us, unit '\n' ∉ (pointsOfUnits us).flatMap quotePoint := by
    intro us
    fun_induction pointsOfUnits us with
    | case1 => simp
    | case2 u => simpa using newline_not_mem_quotePoint u
    | case3 u v rest hpair ih =>
      obtain ⟨hu, hv⟩ := Bool.and_eq_true_iff.1 hpair
      obtain ⟨hescaped, hunits⟩ := unitsOfPoint_pairPoint hu hv
      rw [List.flatMap_cons, quotePoint_of_not_isEscaped hescaped, hunits]
      simp only [List.cons_append, List.nil_append, List.mem_cons, not_or]
      refine ⟨?_, ?_, ih⟩
      · rintro rfl
        cases hu
      · rintro rfl
        cases hv
    | case4 u v rest hpair ih =>
      rw [List.flatMap_cons, List.mem_append, not_or]
      exact ⟨newline_not_mem_quotePoint u, ih⟩
  have hquote : unit '\n' ≠ unit '"' := by decide
  simp only [OneLine, quoted, points, List.cons_append, List.mem_cons, List.mem_append,
    List.not_mem_nil, or_false, not_or]
  exact ⟨hquote, hpoints t.units, hquote⟩

end Text

/-! ## Operands -/

/-- What an operation is told besides the values on the stack. -/
inductive OperandKind where
  | none
  | int
  | number
  | name
  | truth
  | offset
  | call
  | count

def Opcode.operandKind : Opcode → OperandKind
  | .pushInt => .int
  | .pushFloat => .number
  | .pushString | .loadVar | .getProp => .name
  | .pushBool => .truth
  | .jump | .jumpIfFalse | .jumpIfTrue => .offset
  | .callMethod | .callBuiltin | .callFunction => .call
  | .buildArray | .buildObject => .count
  | _ => .none

namespace OperandKind

/-- The operands of a kind. -/
def Operand : OperandKind → Type
  | .none => Unit
  | .int => Int
  | .number => Double
  | .name => Text
  | .truth => Bool
  | .offset => Int32
  | .call => Text × Int32
  | .count => Int32

open Listing (bracketed)

/-- The text of an operand in a listing. -/
def text : (k : OperandKind) → k.Operand → Text
  | .none, _ => Text.empty
  | .int, n => " " ++ Text.ofInt n
  | .number, x => " " ++ Double.constantText x
  | .name, s => " " ++ Text.quoted s
  | .truth, b => " " ++ Value.boolText b
  | .offset, n => bracketed "offset" n
  | .call, c => " " ++ Text.quoted c.1 ++ bracketed "args" c.2
  | .count, n => bracketed "count" n

/-- The instruction has the operand, or says where it lies in a pool. -/
def States (p : Program) (i : Instruction) : (k : OperandKind) → k.Operand → Prop
  | .none, _ => True
  | .int, n => (if i.flag = 0 then some i.imm.toInt else p.ints[i.index.toNat]?) = some n
  | .number, x => p.strings[i.index.toNat]? = some (Double.constantText x)
  | .name, s => p.strings[i.index.toNat]? = some s
  | .truth, b => decide (i.flag ≠ 0) = b
  | .offset, n => i.imm = n
  | .call, c => p.strings[i.index.toNat]? = some c.1 ∧ i.imm = c.2
  | .count, n => i.imm = n

theorem bracketed_inj {label : Text} {n n' : Int32} (h : bracketed label n = bracketed label n') :
    n = n' := by
  have hunits := List.append_cancel_right (congrArg Text.units h)
  have htext : Text.ofInt n.toInt = Text.ofInt n'.toInt :=
    congrArg Text.mk (List.append_cancel_left hunits)
  exact Int32.toInt_inj.1 (Text.ofInt_inj htext)

/-- Of two operands of one kind, the text tells which it is. -/
theorem text_inj {k : OperandKind} {a a' : k.Operand} (h : k.text a = k.text a') : a = a' := by
  have hcancel : ∀ {s t : Text}, (" " ++ s : Text) = " " ++ t → s = t :=
    fun h => congrArg Text.mk (List.cons.inj (congrArg Text.units h)).2
  have hquoted : ∀ {s t : Text}, s.quoted = t.quoted → s = t :=
    fun h => (Text.quoted_cancel (congrArg (·.units ++ []) h)).1
  have hbool : ∀ b b', Value.boolText b = Value.boolText b' → b = b' := by decide
  cases k with
  | none => rfl
  | int => exact Text.ofInt_inj (hcancel h)
  | number => exact Double.constantText_inj (hcancel h)
  | name => exact hquoted (hcancel h)
  | truth => exact hbool a a' (hcancel h)
  | offset => exact bracketed_inj h
  | call =>
    obtain ⟨name, argc⟩ := a
    obtain ⟨name', argc'⟩ := a'
    obtain ⟨rfl, hrest⟩ := Text.quoted_cancel (List.cons.inj (congrArg Text.units h)).2
    cases bracketed_inj (congrArg Text.mk hrest)
    rfl
  | count => exact bracketed_inj h

theorem solid_bracketed (label : Text) (n : Int32) : (bracketed label n).Solid :=
  Text.Solid.append ⟨[], Text.unit ']', rfl, by decide⟩ _

theorem solid_text {k : OperandKind} (a : k.Operand) : k.text a = Text.empty ∨ (k.text a).Solid := by
  cases k with
  | none => exact .inl rfl
  | int => exact .inr ((Text.solid_ofInt a).append _)
  | number => exact .inr ((Text.solid_constantText a).append _)
  | name => exact .inr ((Text.solid_quoted a).append _)
  | truth =>
    refine .inr (Text.Solid.append ?_ _)
    cases a with
    | false => exact ⟨_, _, (rfl : _ = [_, _, _, _] ++ [_]), by decide⟩
    | true => exact ⟨_, _, (rfl : _ = [_, _, _] ++ [_]), by decide⟩
  | offset => exact .inr (solid_bracketed _ a)
  | call => exact .inr ((solid_bracketed _ a.2).append _)
  | count => exact .inr (solid_bracketed _ a)

theorem oneLine_bracketed {label : Text} (h : label.OneLine) (n : Int32) :
    (bracketed label n).OneLine :=
  (((Text.OneLine.append (by decide) h).append (by decide)).append
    (Text.oneLine_ofInt n.toInt)).append (by decide)

theorem oneLine_text {k : OperandKind} (a : k.Operand) : (k.text a).OneLine := by
  have hblank : (Text.ofString " ").OneLine := by decide
  have hbool : ∀ b, (Value.boolText b).OneLine := by decide
  cases k with
  | none => exact List.not_mem_nil
  | int => exact hblank.append (Text.oneLine_ofInt a)
  | number =>
    exact hblank.append (Text.oneLine_of_forall fun _ hu =>
      Text.not_isBlank_of_isNumberUnit (Double.isNumberUnit_constantText hu))
  | name => exact hblank.append (Text.oneLine_quoted a)
  | truth => exact hblank.append (hbool a)
  | offset => exact oneLine_bracketed (by decide) a
  | call => exact (hblank.append (Text.oneLine_quoted a.1)).append (oneLine_bracketed (by decide) a.2)
  | count => exact oneLine_bracketed (by decide) a

end OperandKind

/-! ## Instructions -/

/-- An operation with its operand, as a line of a listing shows them. -/
structure Shown where
  op : Opcode
  operand : op.operandKind.Operand

namespace Shown

def operandText (s : Shown) : Text := s.op.operandKind.text s.operand

/-- What stands in a line behind the slot. -/
def entry (s : Shown) : Text :=
  if s.operandText = Text.empty then s.op.name
  else s.op.name.padEnd Listing.nameWidth ++ s.operandText

theorem name_cases (op : Opcode) :
    op.name ≠ Text.empty ∧ op.name.length < Listing.nameWidth ∧
      op.name.units.all (!Text.isBlank ·) = true := by
  cases op with
  | binary op => cases op <;> decide
  | unary op => cases op <;> decide
  | _ => decide

theorem not_isBlank_name {op : Opcode} {u : UInt16} (hu : u ∈ op.name.units) :
    Text.isBlank u = false := by
  simpa using List.all_eq_true.1 (name_cases op).2.2 u hu

theorem name_inj {op op' : Opcode} (h : op.name = op'.name) : op = op' := by
  have hname : ∀ op, Opcode.ofName? (Opcode.name op) = some op := by
    intro op
    cases op with
    | binary op => cases op <;> decide
    | unary op => cases op <;> decide
    | _ => decide
  have hsame := hname op
  rw [h, hname op'] at hsame
  exact (Option.some.inj hsame).symm

/-- Behind the name there is nothing, or there are blanks and an operand. -/
theorem units_entry (s : Shown) : ∃ rest, s.entry.units = s.op.name.units ++ rest ∧
    (rest = [] ∧ s.operandText = Text.empty ∨
      ∃ n, n + 1 = Listing.nameWidth - s.op.name.length ∧
        rest = Text.unit ' ' :: (List.replicate n (Text.unit ' ') ++ s.operandText.units)) := by
  unfold entry
  split
  next hempty => exact ⟨[], (List.append_nil _).symm, .inl ⟨rfl, hempty⟩⟩
  next =>
    obtain ⟨n, hn⟩ : ∃ n, n + 1 = Listing.nameWidth - s.op.name.length :=
      ⟨Listing.nameWidth - s.op.name.length - 1, by have := (name_cases s.op).2.1; omega⟩
    refine ⟨_, ?_, .inr ⟨n, hn, rfl⟩⟩
    rw [Text.units_append, Text.padEnd, ← hn, List.replicate_succ, List.append_assoc,
      List.cons_append]

/-- A line tells the operation and the operand. -/
theorem entry_inj {s s' : Shown} (h : s.entry = s'.entry) : s = s' := by
  obtain ⟨op, a⟩ := s
  obtain ⟨op', a'⟩ := s'
  obtain ⟨rest, hunits, hrest⟩ := units_entry ⟨op, a⟩
  obtain ⟨rest', hunits', hrest'⟩ := units_entry ⟨op', a'⟩
  have hends : ∀ {s : Shown} {rest : List UInt16}, (rest = [] ∧ s.operandText = Text.empty ∨
      ∃ n, n + 1 = Listing.nameWidth - s.op.name.length ∧
        rest = Text.unit ' ' :: (List.replicate n (Text.unit ' ') ++ s.operandText.units)) →
      ∀ u ∈ rest.head?, (!Text.isBlank u) = false := by
    rintro s rest (⟨rfl, -⟩ | ⟨n, -, rfl⟩) u hu
    · cases hu
    · cases hu
      decide
  obtain ⟨hname, hsame⟩ := Text.span_cancel (List.all_eq_true.1 (name_cases op).2.2)
    (List.all_eq_true.1 (name_cases op').2.2) (hends hrest) (hends hrest')
    (hunits.symm.trans ((congrArg Text.units h).trans hunits'))
  obtain rfl := name_inj (congrArg Text.mk hname)
  have htext : op.operandKind.text a = op.operandKind.text a' := by
    rcases hrest with ⟨hnil, hempty⟩ | ⟨n, hn, hrest⟩
    · rcases hrest' with ⟨-, hempty'⟩ | ⟨n', -, hrest'⟩
      · exact hempty.trans hempty'.symm
      · rw [← hsame, hnil] at hrest'
        cases hrest'
    · rcases hrest' with ⟨hnil', -⟩ | ⟨n', hn', hrest'⟩
      · rw [hsame, hnil'] at hrest
        cases hrest
      · obtain rfl : n = n' := Nat.succ.inj (hn.trans hn'.symm)
        rw [hrest, hrest'] at hsame
        exact congrArg Text.mk (List.append_cancel_left (List.cons.inj hsame).2)
  rw [OperandKind.text_inj htext]

end Shown

/-- The instruction has the operation and the operand. -/
structure Program.Shows (p : Program) (i : Instruction) (s : Shown) : Prop where
  opcode : i.opcode? = some s.op
  operand : s.op.operandKind.States p i s.operand

namespace Program.Shows

variable {p q : Program} {i j : Instruction} {s : Shown}

theorem operands_eq (h : p.Shows i s) : Listing.operands p i = s.operandText := by
  obtain ⟨op, a⟩ := s
  have hop := h.opcode
  have ha := h.operand
  unfold Listing.operands
  rw [hop]
  cases op with
  | pushInt =>
    show (if i.flag = 0 then _ else _) = _
    dsimp only [Opcode.operandKind, OperandKind.States] at ha
    split
    next hflag =>
      rw [if_pos hflag] at ha
      cases ha
      rfl
    next hflag =>
      rw [if_neg hflag] at ha
      simp only [Listing.pooled, ha]
      rfl
  | pushBool =>
    cases ha
    rfl
  | pushFloat | pushString | loadVar | getProp =>
    have hstring : p.strings[i.index.toNat]? = some _ := ha
    simp only [Listing.pooled, hstring]
    rfl
  | jump | jumpIfFalse | jumpIfTrue | buildArray | buildObject =>
    cases ha
    rfl
  | callMethod | callBuiltin | callFunction =>
    obtain ⟨hstring, himm⟩ : p.strings[i.index.toNat]? = some _ ∧ i.imm = _ := ha
    simp only [Listing.pooled, hstring, himm]
    rfl
  | _ => rfl

/-- The machine uses nothing but the operation and the operand. -/
theorem action_eq (h : p.Shows i s) (h' : q.Shows j s) (pc : Nat) :
    p.action pc i = q.action pc j := by
  obtain ⟨op, a⟩ := s
  have hop := h.opcode
  have hop' := h'.opcode
  have ha := h.operand
  have ha' := h'.operand
  unfold Program.action
  rw [hop, hop']
  cases op with
  | pushInt =>
    dsimp only [Opcode.operandKind, OperandKind.States] at ha ha'
    simp only [ha, ha']
  | pushFloat | pushString | loadVar | getProp =>
    have hstring : p.strings[i.index.toNat]? = some _ := ha
    have hstring' : q.strings[j.index.toNat]? = some _ := ha'
    simp only [hstring, hstring']
  | pushBool =>
    have hflag : decide (i.flag ≠ 0) = decide (j.flag ≠ 0) := ha.trans ha'.symm
    simp only [hflag]
  | jump | jumpIfFalse | jumpIfTrue | buildArray | buildObject =>
    have himm : i.imm = j.imm := ha.trans ha'.symm
    simp only [himm]
  | callMethod | callBuiltin | callFunction =>
    obtain ⟨hstring, himm⟩ : p.strings[i.index.toNat]? = some _ ∧ i.imm = _ := ha
    obtain ⟨hstring', himm'⟩ : q.strings[j.index.toNat]? = some _ ∧ j.imm = _ := ha'
    simp only [hstring, hstring', himm, himm']
  | _ => rfl

end Program.Shows

/-! ## Lines -/

namespace Listing

/-- What stands before the name of the operation. -/
def lead (pc : Nat) : Text := (Text.ofNat pc).padStart slotWidth ++ ": "

theorem oneLine_lead (pc : Nat) : (lead pc).OneLine :=
  ((Text.oneLine_blanks (slotWidth - (Text.ofNat pc).length)).append (Text.oneLine_ofNat pc)).append
    (by decide)

theorem line_eq {p : Program} {pc : Nat} {s : Shown} (h : p.Shows (p.fetch pc) s) :
    line p pc = lead pc ++ s.entry := by
  have hname : Opcode.nameOfNumber (p.fetch pc).op.toNat = s.op.name := by
    have hop : Opcode.all[(p.fetch pc).op.toNat]? = some s.op := h.opcode
    rw [Opcode.nameOfNumber, if_pos (Int.natCast_nonneg _), Int.toNat_natCast, hop]
    rfl
  have hsolid : s.op.name.Solid :=
    Text.solid_of_forall (Shown.name_cases s.op).1 fun _ hu => Shown.not_isBlank_name hu
  have hline : line p pc =
      (lead pc ++ s.op.name.padEnd nameWidth ++ s.operandText).trimEnd := by
    simp only [line, ← p.fetch_eq_decode, hname, h.operands_eq, lead]
  rw [hline, Shown.entry]
  split
  next hempty =>
    have hnil : lead pc ++ s.op.name.padEnd nameWidth ++ s.operandText =
        lead pc ++ s.op.name.padEnd nameWidth := by
      rw [hempty]
      exact congrArg Text.mk (List.append_nil _)
    rw [hnil, hsolid.trimEnd_padEnd]
  next hsome =>
    have htext : s.operandText.Solid := (OperandKind.solid_text s.operand).resolve_left hsome
    rw [(htext.append _).trimEnd]
    exact congrArg Text.mk (List.append_assoc _ _ _)

theorem oneLine_line {p : Program} {pc : Nat} {s : Shown} (h : p.Shows (p.fetch pc) s) :
    (line p pc).OneLine := by
  have hname : s.op.name.OneLine :=
    Text.oneLine_of_forall fun _ hu => Shown.not_isBlank_name hu
  rw [line_eq h]
  refine (oneLine_lead pc).append ?_
  unfold Shown.entry
  split
  · exact hname
  · exact Text.OneLine.append (hname.append (Text.oneLine_blanks _))
      (OperandKind.oneLine_text s.operand)

/-- The first line. -/
def title (count : Int) : Text := "; Disassembly of " ++ Text.ofInt count ++ " instructions"

theorem oneLine_title (count : Int) : (title count).OneLine :=
  ((show (Text.ofString "; Disassembly of ").OneLine by decide).append
    (Text.oneLine_ofInt count)).append (by decide)

theorem title_inj {count count' : Int} (h : title count = title count') : count = count' := by
  have hunits := List.append_cancel_right (congrArg Text.units h)
  exact Text.ofInt_inj (congrArg Text.mk (List.append_cancel_left hunits))

theorem units_newline : (Text.ofString "\n").units = [Text.unit '\n'] := rfl

/-- Whatever stands above them, the last lines are found again. -/
theorem exists_split_join (above : List Text) {lines : List Text} (hne : lines ≠ [])
    (h : ∀ t ∈ lines, t.OneLine) :
    ∃ pieces, (Text.join "\n" (above ++ lines)).split (Text.unit '\n') = pieces ++ lines := by
  induction above with
  | nil => exact ⟨[], Text.split_join units_newline hne h⟩
  | cons t above ih =>
    obtain ⟨pieces, hpieces⟩ := ih
    refine ⟨t.split (Text.unit '\n') ++ pieces, ?_⟩
    rw [List.cons_append, Text.join_cons _ _ (List.append_ne_nil_of_right_ne_nil _ hne),
      Text.split_append units_newline, hpieces, List.append_assoc]

end Listing

/-! ## Listings -/

/-- Every instruction of the program has an operation and the operand of its kind. -/
structure Program.Legible (p : Program) : Prop where
  count_nonneg : 0 ≤ p.count
  shows : ∀ pc : Nat, (pc : Int) < p.count → ∃ s, p.Shows (p.fetch pc) s

namespace Program.Legible

variable {p q : Program}

/-- The lines of a listing: the first one, something, the instructions, and nothing. -/
theorem split_listing (hp : p.Legible) (hcount : p.count ≠ 0) :
    ∃ pieces, p.listing.split (Text.unit '\n') =
      Listing.title p.count ::
        (pieces ++ (List.range p.count.toNat).map (Listing.line p) ++ [Text.empty]) := by
  have hnonneg := hp.count_nonneg
  have hne : (List.range p.count.toNat).map (Listing.line p) ≠ [] := by
    simp only [ne_eq, List.map_eq_nil_iff, List.range_eq_nil]
    omega
  have hlines : ∀ t ∈ (List.range p.count.toNat).map (Listing.line p), t.OneLine := by
    intro t ht
    obtain ⟨pc, hpc, rfl⟩ := List.mem_map.1 ht
    have hlt := List.mem_range.1 hpc
    obtain ⟨s, hs⟩ := hp.shows pc (by omega)
    exact Listing.oneLine_line hs
  obtain ⟨above, habove⟩ : ∃ above, Listing.header p = Listing.title p.count :: above := ⟨_, rfl⟩
  obtain ⟨pieces, hpieces⟩ := Listing.exists_split_join above hne hlines
  refine ⟨pieces, ?_⟩
  have hlisting : p.listing = Listing.title p.count ++ "\n" ++
      Text.join "\n" (above ++ (List.range p.count.toNat).map (Listing.line p)) ++ "\n" ++
        Text.empty := by
    rw [← Text.join_cons _ _ (List.append_ne_nil_of_right_ne_nil above hne)]
    rw [Program.listing, if_neg hcount, habove]
    exact congrArg Text.mk (List.append_nil _).symm
  rw [hlisting, Text.split_append Listing.units_newline, Text.split_append Listing.units_newline,
    hpieces, Text.split_of_not_mem (Listing.oneLine_title p.count)]
  rfl

/-- Programs with the same listing have as many instructions. -/
theorem count_eq (hp : p.Legible) (hq : q.Legible) (h : p.listing = q.listing) :
    p.count = q.count := by
  have hempty : ∀ {p q : Program}, p.count = 0 → q.Legible → q.count ≠ 0 →
      p.listing ≠ q.listing := by
    intro p q hcount hq hne h
    obtain ⟨pieces, hpieces⟩ := hq.split_listing hne
    have hlisting : p.listing = "; No bytecode\n" := if_pos hcount
    rw [← h, hlisting] at hpieces
    have htitle : Text.ofString "; No bytecode" = Listing.title q.count :=
      (List.cons.inj hpieces).1
    have hstart := congrArg (fun t => t.units.take 3) htitle
    revert hstart
    exact nofun
  by_cases hzero : p.count = 0
  · by_cases hzero' : q.count = 0
    · rw [hzero, hzero']
    · exact absurd h (hempty hzero hq hzero')
  · by_cases hzero' : q.count = 0
    · exact absurd h.symm (hempty hzero' hp hzero)
    · obtain ⟨pieces, hpieces⟩ := hp.split_listing hzero
      obtain ⟨pieces', hpieces'⟩ := hq.split_listing hzero'
      rw [h, hpieces'] at hpieces
      exact (Listing.title_inj (List.cons.inj hpieces).1).symm

/-- Programs with the same listing have the same lines. -/
theorem line_eq (hp : p.Legible) (hq : q.Legible) (h : p.listing = q.listing) {pc : Nat}
    (hpc : (pc : Int) < p.count) : Listing.line p pc = Listing.line q pc := by
  have hcount := hp.count_eq hq h
  obtain ⟨pieces, hpieces⟩ := hp.split_listing (by omega)
  obtain ⟨pieces', hpieces'⟩ := hq.split_listing (by omega)
  rw [h, hpieces', hcount] at hpieces
  have hlines := List.append_cancel_right (List.cons.inj hpieces).2
  have hmap := (List.append_inj' hlines (by simp)).2
  have hmem : pc ∈ List.range q.count.toNat := List.mem_range.2 (by omega)
  exact (List.map_inj_left.1 hmap pc hmem).symm

/-- Programs with the same listing ask the same of the machine. -/
theorem exec_eq (hp : p.Legible) (hq : q.Legible) (h : p.listing = q.listing) {pc : Nat}
    (hpc : (pc : Int) < p.count) (env : Environment) (c : Context) :
    Machine.exec env p pc (p.fetch pc) c = Machine.exec env q pc (q.fetch pc) c := by
  obtain ⟨s, hs⟩ := hp.shows pc hpc
  obtain ⟨s', hs'⟩ := hq.shows pc (hp.count_eq hq h ▸ hpc)
  have hlines := hp.line_eq hq h hpc
  rw [Listing.line_eq hs, Listing.line_eq hs'] at hlines
  obtain rfl := Shown.entry_inj (congrArg Text.mk (List.append_cancel_left (congrArg Text.units hlines)))
  rw [Machine.exec_eq_perform, Machine.exec_eq_perform, hs.action_eq hs']

theorem runFrom_eq (hp : p.Legible) (hq : q.Legible) (h : p.listing = q.listing)
    (env : Environment) (pc : Nat) (c : Context) :
    Machine.runFrom env p pc c = Machine.runFrom env q pc c := by
  have hcount := hp.count_eq hq h
  fun_induction Machine.runFrom env p pc c with
  | case1 pc c hlt skip c' hnext ih =>
    rw [hp.exec_eq hq h hlt] at hnext
    rw [Machine.runFrom.eq_def env q, if_pos (hcount ▸ hlt), hnext]
    exact ih
  | case2 pc c hlt c' hstop =>
    rw [hp.exec_eq hq h hlt] at hstop
    rw [Machine.runFrom.eq_def env q, if_pos (hcount ▸ hlt), hstop]
  | case3 pc c hlt message c' hraise =>
    rw [hp.exec_eq hq h hlt] at hraise
    rw [Machine.runFrom.eq_def env q, if_pos (hcount ▸ hlt), hraise]
  | case4 pc c hge => rw [Machine.runFrom.eq_def env q, if_neg (hcount ▸ hge)]

end Program.Legible

/-! ## Compiled programs -/

/-- A packed line is shown with its constant. -/
theorem Line.shows_instruction {p : Program} {l : Line} (hb : p.constants.Bounded)
    (hhas : ∀ a ∈ l.constant?, p.constants.Has a) :
    ∃ s, p.Shows (l.instruction p.constants) s := by
  have hop : (l.instruction p.constants).opcode? = some _ := Draft.opcode?_instruction _
  have hstring : ∀ t, l.constant? = some (.text t) →
      p.strings[(l.instruction p.constants).index.toNat]? = some t :=
    fun t ht => getElem?_strings_of_has hb ht (hhas _ ht)
  cases l with
  | push lit =>
    cases lit with
    | int n =>
      by_cases hn : Emitter.fitsImmediate n
      · refine ⟨⟨.pushInt, ((push (.int n)).instruction p.constants).imm.toInt⟩,
          opcode?_pushInt, if_pos ?_⟩
        rw [instruction_pushInt hn]
        rfl
      · have hconst : (push (.int n)).constant? = some (.int (wrap64 n)) := if_neg hn
        have hint : p.ints[_]? = some _ := getElem?_ints_of_has hb hconst (hhas _ hconst)
        refine ⟨⟨.pushInt, wrap64 n⟩, opcode?_pushInt, ?_⟩
        refine (if_neg ?_).trans hint
        rw [instruction, hconst, Option.elim, draft, if_neg hn]
        show UInt8.ofInt 1 ≠ 0
        decide
    | float x => exact ⟨⟨.pushFloat, x⟩, hop, hstring _ rfl⟩
    | string s => exact ⟨⟨.pushString, s⟩, hop, hstring _ rfl⟩
    | bool b => exact ⟨⟨.pushBool, _⟩, hop, rfl⟩
    | null => exact ⟨⟨.pushNull, ()⟩, hop, trivial⟩
  | load name => exact ⟨⟨.loadVar, name⟩, hop, hstring _ rfl⟩
  | property name => exact ⟨⟨.getProp, name⟩, hop, hstring _ rfl⟩
  | computed => exact ⟨⟨.getComputed, ()⟩, hop, trivial⟩
  | index => exact ⟨⟨.getIndex, ()⟩, hop, trivial⟩
  | binary op => exact ⟨⟨.binary op, ()⟩, hop, trivial⟩
  | unary op => exact ⟨⟨.unary op, ()⟩, hop, trivial⟩
  | jumpIfFalse skip => exact ⟨⟨.jumpIfFalse, _⟩, hop, rfl⟩
  | jump skip => exact ⟨⟨.jump, _⟩, hop, rfl⟩
  | callBuiltin name argc => exact ⟨⟨.callBuiltin, (name, _)⟩, hop, hstring _ rfl, rfl⟩
  | callFunction name argc => exact ⟨⟨.callFunction, (name, _)⟩, hop, hstring _ rfl, rfl⟩
  | callMethod name argc => exact ⟨⟨.callMethod, (name, _)⟩, hop, hstring _ rfl, rfl⟩
  | buildArray count => exact ⟨⟨.buildArray, _⟩, hop, rfl⟩
  | buildObject count => exact ⟨⟨.buildObject, _⟩, hop, rfl⟩

namespace Expr

theorem legible_kept {o : CompileOptions} {x : Expr} (hkept : o.eliminateDeadCode = false) :
    (x.compile o).Legible := by
  have hconst : (x.compile o).constants = (x.written o).constants := x.constants_emitProgram o
  have hbounded : (x.written o).constants.Bounded := ((capped_emitter o).putAll (x.code o)).bounded
  refine ⟨Int.natCast_nonneg _, fun pc hpc => ?_⟩
  rcases fetch_compile_cases hkept hpc with ⟨l, hl, hfetch⟩ | hfetch
  · rw [hfetch, ← hconst]
    apply Line.shows_instruction (hconst ▸ hbounded)
    rw [hconst]
    exact has_code hl
  · rw [hfetch]
    exact ⟨⟨.halt, ()⟩, opcode?_halt, trivial⟩

/-- Compiled programs are legible, also those that failed or have slots cleared. -/
theorem legible_compile (o : CompileOptions) (x : Expr) : (x.compile o).Legible := by
  cases hclear : o.eliminateDeadCode with
  | false => exact legible_kept hclear
  | true =>
    have hkept : (x.compile { o with eliminateDeadCode := false }).Legible := legible_kept rfl
    rw [compile_eq_eliminate hclear]
    refine ⟨hkept.count_nonneg, fun pc hpc => ?_⟩
    obtain ⟨s, hs⟩ := hkept.shows pc hpc
    by_cases hcleared : ((x.compile { o with eliminateDeadCode := false }).words.reachable
        (x.emitProgram o).code.size)[pc]? = some false
    · rw [Program.fetch_eliminate_cleared hcleared]
      exact ⟨⟨.nop, ()⟩, rfl, trivial⟩
    · rw [Program.fetch_eliminate hcleared]
      exact ⟨s, hs.opcode, hs.operand⟩

/-- Compiled programs with the same listing run in the same way, whatever trees, options and
    source texts they come from: with the same result, fault, calls and reports. -/
theorem run_compile_of_listing_eq (o o' : CompileOptions) (x x' : Expr)
    (h : (x.compile o).listing = (x'.compile o').listing) (c : Context) (env : Environment) :
    c.run env (x.compile o) = c.run env (x'.compile o') := by
  have hruns := (legible_compile o x).runFrom_eq (legible_compile o' x') h env 0
  rw [Context.run, Context.run, hruns]

/-- A whole number, with a source text that goes on as a listing does after a failure. -/
def posing : Program :=
  compile { echo := .text "x\n; error: string pool overflow" } (.lit (.int 1))

/-- The code of an array that ends where the text does not fit the pool. -/
def posed : Program :=
  compile { maxPoolEntries := 0, echo := .text "x" } (.array [.lit (.int 1), .lit (.string "a")])

/-- Two programs have the same listing, but only one of them failed. -/
theorem run_posing :
    posing.failure = none ∧ posed.failure = some (.compile .stringPool) ∧
    posing.listing = posed.listing ∧
    ∀ (c : Context) (env : Environment), c.run env posing = c.run env posed := by
  have hlisting : posing.listing = posed.listing := by decide +kernel
  exact ⟨by decide +kernel, by decide +kernel, hlisting,
    run_compile_of_listing_eq _ _ _ _ hlisting⟩

end Expr

end Reckon
