-- SUMMARY: Quoted texts, number texts and operator symbols tell where they end.
import Reckon.Text.Quoted
import Reckon.Expr
import Reckon.Proofs.NumberText

/-!
# Texts that tell where they end

A text that is written next to others can be read back only if it shows where it
ends. A quoted text ends at the first quote that is not part of an escape, the
text of a number at the first unit that no number has, and the symbol of an
operator at the bracket behind it. Each of them is recovered together with what
follows it.
-/

namespace Reckon

/-! ## Quoted texts -/

namespace Text

/-- The value of a hexadecimal digit. -/
def hexValue (u : UInt16) : Nat := if u.toNat < 58 then u.toNat - 48 else u.toNat - 87

theorem hexValue_hexDigit {d : Nat} (h : d < 16) : hexValue (hexDigit d) = d := by
  have hall : ∀ d : Fin 16, hexValue (hexDigit d) = d := by decide
  exact hall ⟨d, h⟩

/-- The points with a short escape, by the unit behind its backslash. -/
def shortEscapes : List (UInt16 × Nat) :=
  [(unit '"', 0x22), (unit '\\', 0x5C), (unit 'b', 8), (unit 't', 9), (unit 'n', 10),
    (unit 'f', 12), (unit 'r', 13)]

/-- The point that an escape stands for, and what follows it. -/
def readEscape? : List UInt16 → Option (Nat × List UInt16)
  | a :: b :: rest =>
    if a = unit '\\' then
      match shortEscapes.lookup b, rest with
      | some p, _ => some (p, rest)
      | none, x :: y :: z :: w :: rest =>
        some (0x1000 * hexValue x + 0x100 * hexValue y + 16 * hexValue z + hexValue w, rest)
      | _, _ => none
    else none
  | _ => none

theorem readEscape?_of_ne {u : UInt16} (h : u ≠ unit '\\') (rest : List UInt16) :
    readEscape? (u :: rest) = none := by
  cases rest with
  | nil => rfl
  | cons v rest => exact if_neg h

theorem readEscape?_hexEscape {p : Nat} (hp : p < 65536) (rest : List UInt16) :
    readEscape? (hexEscape p ++ rest) = some (p, rest) := by
  have hlookup : shortEscapes.lookup (unit 'u') = none := by decide
  have hvalue : 0x1000 * (p / 0x1000 % 16) + 0x100 * (p / 0x100 % 16) + 16 * (p / 16 % 16) +
      p % 16 = p := by omega
  simp only [hexEscape, List.cons_append, List.nil_append, readEscape?, if_true, hlookup,
    hexValue_hexDigit (Nat.mod_lt _ (by decide : 16 > 0)), hvalue]

/-- Whether a point is written as an escape between quotes. -/
def isEscaped (p : Nat) : Bool := p = 0x22 || p = 0x5C || p < 0x20 || isSurrogate p

/-- Escapes are read back, whatever follows them. -/
theorem readEscape?_quotePoint {p : Nat} (hp : p < 65536) (h : isEscaped p = true)
    (rest : List UInt16) : readEscape? (quotePoint p ++ rest) = some (p, rest) := by
  fun_cases quotePoint p with
  | case8 => exact readEscape?_hexEscape hp rest
  | case9 => simp_all [isEscaped]
  | _ => subst_vars; rfl

theorem quotePoint_of_not_isEscaped {p : Nat} (h : isEscaped p = false) :
    quotePoint p = unitsOfPoint p := by
  fun_cases quotePoint p with
  | case9 => rfl
  | case8 => simp_all [isEscaped]
  | _ => subst_vars; cases h

/-- How the units of a text may be written between quotes: each as itself or as an
    escape. -/
inductive Spells : List UInt16 → List UInt16 → Prop where
  | nil : Spells [] []
  | plain {u : UInt16} {us vs : List UInt16} (hquote : u ≠ unit '"') (hescape : u ≠ unit '\\')
      (h : Spells us vs) : Spells (u :: us) (u :: vs)
  | escaped {u : UInt16} {us vs : List UInt16} (hu : isEscaped u.toNat = true)
      (h : Spells us vs) : Spells (u :: us) (quotePoint u.toNat ++ vs)

/-- Up to the closing quote, what was written tells the units and where they end. -/
theorem Spells.cancel {us vs us' vs' r r' : List UInt16} (h : Spells us vs) (h' : Spells us' vs')
    (heq : vs ++ unit '"' :: r = vs' ++ unit '"' :: r') : us = us' ∧ r = r' := by
  have hquote : unit '"' ≠ unit '\\' := by decide
  induction h generalizing us' vs' with
  | nil =>
    cases h' with
    | nil => exact ⟨rfl, (List.cons.inj heq).2⟩
    | plain hquote' => exact absurd (List.cons.inj heq).1.symm hquote'
    | @escaped u' us' vs' hu' h' =>
      have hread := readEscape?_quotePoint u'.toNat_lt hu' (vs' ++ unit '"' :: r')
      rw [← List.append_assoc, ← heq, List.nil_append, readEscape?_of_ne hquote] at hread
      cases hread
  | @plain u us vs hquote' hescape h ih =>
    cases h' with
    | nil => exact absurd (List.cons.inj heq).1 hquote'
    | plain _ _ h' =>
      obtain ⟨hu, hrest⟩ := List.cons.inj heq
      obtain ⟨rfl, rfl⟩ := ih h' hrest
      exact ⟨hu ▸ rfl, rfl⟩
    | @escaped u' us' vs' hu' h' =>
      have hread := readEscape?_quotePoint u'.toNat_lt hu' (vs' ++ unit '"' :: r')
      rw [← List.append_assoc, ← heq, List.cons_append, readEscape?_of_ne hescape] at hread
      cases hread
  | @escaped u us vs hu h ih =>
    have hread := readEscape?_quotePoint u.toNat_lt hu (vs ++ unit '"' :: r)
    rw [← List.append_assoc, heq] at hread
    cases h' with
    | nil =>
      rw [List.nil_append, readEscape?_of_ne hquote] at hread
      cases hread
    | plain _ hescape' =>
      rw [List.cons_append, readEscape?_of_ne hescape'] at hread
      cases hread
    | @escaped u' us' vs' hu' h' =>
      rw [List.append_assoc, readEscape?_quotePoint u'.toNat_lt hu'] at hread
      obtain ⟨hpoint, hrest⟩ := Prod.mk.inj (Option.some.inj hread)
      obtain ⟨rfl, rfl⟩ := ih h' hrest.symm
      exact ⟨UInt16.toNat_inj.1 hpoint ▸ rfl, rfl⟩

theorem unitsOfPoint_toNat (u : UInt16) : unitsOfPoint u.toNat = [u] := by
  have hlt : u.toNat < 0x10000 := u.toNat_lt
  simp [unitsOfPoint, hlt]

theorem spells_unit {us vs : List UInt16} (u : UInt16) (h : Spells us vs) :
    Spells (u :: us) (quotePoint u.toNat ++ vs) := by
  cases hu : isEscaped u.toNat with
  | true => exact .escaped hu h
  | false =>
    rw [quotePoint_of_not_isEscaped hu, unitsOfPoint_toNat]
    refine .plain ?_ ?_ h <;> rintro rfl <;> revert hu <;> decide

theorem unitsOfPoint_pairPoint {u v : UInt16} (hu : isHighSurrogate u = true)
    (hv : isLowSurrogate v = true) :
    isEscaped (pairPoint u v) = false ∧ unitsOfPoint (pairPoint u v) = [u, v] := by
  simp only [isHighSurrogate, isLowSurrogate, Bool.and_eq_true, decide_eq_true_eq,
    UInt16.le_iff_toNat_le, UInt16.reduceToNat] at hu hv
  have hpoint : pairPoint u v - 0x10000 = (u.toNat - 0xD800) * 0x400 + (v.toNat - 0xDC00) := by
    unfold pairPoint
    omega
  have hlarge : 0x10000 ≤ pairPoint u v := by
    unfold pairPoint
    omega
  generalize pairPoint u v = p at hpoint hlarge
  have hhigh : (0xD800 + (p - 0x10000) / 0x400).toUInt16 = u := by
    apply UInt16.toNat_inj.1
    rw [Nat.toUInt16_eq, UInt16.toNat_ofNat']
    omega
  have hlow : (0xDC00 + (p - 0x10000) % 0x400).toUInt16 = v := by
    apply UInt16.toNat_inj.1
    rw [Nat.toUInt16_eq, UInt16.toNat_ofNat']
    omega
  refine ⟨?_, ?_⟩
  · simp [isEscaped, isSurrogate]
    omega
  · rw [unitsOfPoint, if_neg (Nat.not_lt.2 hlarge), hhigh, hlow]

theorem spells_points (us : List UInt16) : Spells us ((pointsOfUnits us).flatMap quotePoint) := by
  fun_induction pointsOfUnits us with
  | case1 => exact .nil
  | case2 u => exact spells_unit u .nil
  | case3 u v rest hpair ih =>
    obtain ⟨hu, hv⟩ := Bool.and_eq_true_iff.1 hpair
    obtain ⟨hescaped, hunits⟩ := unitsOfPoint_pairPoint hu hv
    rw [List.flatMap_cons, quotePoint_of_not_isEscaped hescaped, hunits]
    refine .plain ?_ ?_ (.plain ?_ ?_ ih)
    · rintro rfl; revert hu; decide
    · rintro rfl; revert hu; decide
    · rintro rfl; revert hv; decide
    · rintro rfl; revert hv; decide
  | case4 u v rest hpair ih => exact spells_unit u ih

/-- A quoted text tells the text and where it ends. -/
theorem quoted_cancel {s t : Text} {r r' : List UInt16}
    (h : s.quoted.units ++ r = t.quoted.units ++ r') : s = t ∧ r = r' := by
  have hunits : ∀ (t : Text) (r : List UInt16), t.quoted.units ++ r =
      unit '"' :: ((pointsOfUnits t.units).flatMap quotePoint ++ unit '"' :: r) := by
    intro t r
    simp [quoted, points]
  rw [hunits, hunits] at h
  obtain ⟨hs, hr⟩ := (spells_points s.units).cancel (spells_points t.units) (List.cons.inj h).2
  cases s
  cases t
  exact ⟨congrArg Text.mk hs, hr⟩

end Text

/-! ## Numbers -/

namespace Text

/-- Two runs of units of one class that end where the class does are the same run. -/
theorem span_cancel {p : UInt16 → Bool} {us us' r r' : List UInt16} (hus : ∀ u ∈ us, p u = true)
    (hus' : ∀ u ∈ us', p u = true) (hr : ∀ u ∈ r.head?, p u = false)
    (hr' : ∀ u ∈ r'.head?, p u = false) (h : us ++ r = us' ++ r') : us = us' ∧ r = r' := by
  have htake : ∀ {vs s : List UInt16}, (∀ u ∈ vs, p u = true) → (∀ u ∈ s.head?, p u = false) →
      (vs ++ s).takeWhile p = vs := by
    intro vs s hvs hs
    rw [List.takeWhile_append_of_pos hvs]
    cases s with
    | nil => exact List.append_nil vs
    | cons u s => rw [List.takeWhile_cons_of_neg (by simp [hs u rfl]), List.append_nil]
  have hsame : us = us' := by
    have hboth := congrArg (List.takeWhile p) h
    rwa [htake hus hr, htake hus' hr'] at hboth
  subst hsame
  exact ⟨rfl, List.append_cancel_left h⟩

/-- The units that separate or close the parts of a key. -/
def isStop (u : UInt16) : Bool :=
  u = unit ',' || u = unit ')' || u = unit ']' || u = unit '\x7d'

/-- What may follow a key: nothing, or something that begins with a stop. -/
def Ends (us : List UInt16) : Prop := ∀ u ∈ us.head?, isStop u = true

theorem ends_nil : Ends [] := nofun

theorem ends_append {t : Text} (h : t.units.head?.any isStop = true) (us : List UInt16) :
    Ends (t.units ++ us) := by
  intro u hu
  obtain ⟨vs⟩ := t
  cases vs with
  | nil => cases h
  | cons v vs =>
    cases hu
    exact h

/-- The units that number texts are made of. -/
def isNumberUnit (u : UInt16) : Bool :=
  isNumeric u || (ofString "NaN" ++ ofString "Infinity").units.contains u

theorem isNumberUnit_cases {u : UInt16} (h : isNumberUnit u = true) :
    isStop u = false ∧ u ≠ unit '"' := by
  have hletters : (ofString "NaN" ++ ofString "Infinity").units.all
      (fun u => !isStop u && u != unit '"') = true := by decide
  rcases Bool.or_eq_true_iff.1 h with hnumeric | hletter
  · have hcases := isNumeric_cases hnumeric
    refine ⟨?_, ?_⟩
    · rw [Bool.eq_false_iff]
      intro hstop
      simp only [isStop, Bool.or_eq_true, decide_eq_true_eq] at hstop
      rcases hstop with ((rfl | rfl) | rfl) | rfl <;> revert hcases <;> decide
    · rintro rfl
      revert hcases
      decide
  · have hboth := List.all_eq_true.1 hletters u (List.contains_iff_mem.1 hletter)
    simpa using hboth

/-- Number texts that end where a key may end are the same text. -/
theorem number_cancel {s t : Text} {r r' : List UInt16} (hs : ∀ u ∈ s.units, isNumberUnit u = true)
    (ht : ∀ u ∈ t.units, isNumberUnit u = true) (hr : Ends r) (hr' : Ends r')
    (h : s.units ++ r = t.units ++ r') : s = t ∧ r = r' := by
  have hstop : ∀ {us : List UInt16}, Ends us → ∀ u ∈ us.head?, isNumberUnit u = false := by
    intro us hus u hu
    rw [Bool.eq_false_iff]
    intro hnumber
    have hstop := hus u hu
    rw [(isNumberUnit_cases hnumber).1] at hstop
    cases hstop
  obtain ⟨hunits, hrest⟩ := span_cancel hs ht (hstop hr) (hstop hr') h
  cases s
  cases t
  exact ⟨congrArg Text.mk hunits, hrest⟩

theorem isNumberUnit_ofNat {n : Nat} {u : UInt16} (hu : u ∈ (ofNat n).units) :
    isNumberUnit u = true := by
  simp only [isNumberUnit, isNumeric_of_isDigit (Decimal.isDigit_of_mem_digits hu), Bool.true_or]

theorem isNumberUnit_ofInt {n : Int} {u : UInt16} (hu : u ∈ (ofInt n).units) :
    isNumberUnit u = true := by
  unfold ofInt at hu
  split at hu
  · rcases List.mem_append.1 hu with hsign | hu
    · cases List.mem_singleton.1 hsign
      decide
    · exact isNumberUnit_ofNat hu
  · exact isNumberUnit_ofNat hu

theorem ofNat_inj {m n : Nat} (h : ofNat m = ofNat n) : m = n := by
  have hvalue := congrArg (fun t => natOfDigits t.units) h
  simpa only [ofNat, Decimal.natOfDigits_toDigits] using hvalue

theorem minus_not_mem_ofNat (n : Nat) : unit '-' ∉ (ofNat n).units := by
  intro hmem
  have hdigit := Decimal.isDigit_of_mem_digits hmem
  revert hdigit
  decide

/-- The text of a whole number tells the number. -/
theorem ofInt_inj {m n : Int} (h : ofInt m = ofInt n) : m = n := by
  have hminus : ∀ k : Nat, unit '-' ∈ ("-" ++ ofNat k : Text).units := fun k => List.mem_cons_self
  unfold ofInt at h
  split at h
  next hm =>
    split at h
    next hn =>
      have hunits := List.append_cancel_left (congrArg units h)
      have habs : m.natAbs = n.natAbs := ofNat_inj (congrArg Text.mk hunits)
      omega
    next hn =>
      have hmem := hminus m.natAbs
      rw [h] at hmem
      exact absurd hmem (minus_not_mem_ofNat _)
  next hm =>
    split at h
    next hn =>
      have hmem := hminus n.natAbs
      rw [← h] at hmem
      exact absurd hmem (minus_not_mem_ofNat _)
    next hn =>
      have habs := ofNat_inj h
      omega

end Text

namespace Double

theorem isNumberUnit_signText {neg : Bool} {u : UInt16} (hu : u ∈ (signText neg).units) :
    Text.isNumberUnit u = true := by
  cases neg with
  | false => cases hu
  | true =>
    cases List.mem_singleton.1 hu
    decide

theorem isNumeric_text {d : Decimal} {u : UInt16} (hu : u ∈ (d.text Decimal.plain).units) :
    Text.isNumeric u = true := by
  have hwritten : Decimal.Written (d.text Decimal.plain).units := by
    unfold Decimal.text
    split
    · exact Decimal.written_positional d
    · exact Decimal.written_pointed d _
  obtain ⟨v, vs, hunits, hv, hvs⟩ := hwritten
  rw [hunits] at hu
  rcases List.mem_cons.1 hu with rfl | hu
  · exact Text.isNumeric_of_isDigit hv
  · exact hvs u hu

/-- The text of a number consists of digits, signs, a point, the mark of an exponent, or
    the letters of the words for what is not finite. -/
theorem isNumberUnit_constantText {x : Double} {u : UInt16} (hu : u ∈ x.constantText.units) :
    Text.isNumberUnit u = true := by
  have hall : ∀ t : Text, t.units.all Text.isNumberUnit = true → u ∈ t.units →
      Text.isNumberUnit u = true := fun t ht hu => List.all_eq_true.1 ht u hu
  unfold constantText at hu
  split at hu
  · exact hall _ (by decide) hu
  · cases x with
    | nan => exact hall _ (by decide) hu
    | infinite neg =>
      rcases List.mem_append.1 hu with hu | hu
      · exact isNumberUnit_signText hu
      · exact hall "Infinity" (by decide) hu
    | finite neg r hr =>
      unfold text at hu
      dsimp only at hu
      split at hu
      · exact hall "0" (by decide) hu
      · rcases List.mem_append.1 hu with hu | hu
        · exact isNumberUnit_signText hu
        · simp only [Text.isNumberUnit, isNumeric_text hu, Bool.true_or]

end Double

/-! ## Operators -/

/-- What is written without a bracket and can be read back ends at the bracket behind it. -/
theorem Text.bracket_cancel {α : Type} {write : α → Text} (read : Text → Option α)
    (hread : ∀ a, read (write a) = some a)
    (hwrite : ∀ a, (write a).units.all (· != unit '(') = true) {a b : α} {r r' : List UInt16}
    (h : (write a).units ++ unit '(' :: r = (write b).units ++ unit '(' :: r') :
    a = b ∧ r = r' := by
  obtain ⟨hunits, hrest⟩ := span_cancel (List.all_eq_true.1 (hwrite a))
    (List.all_eq_true.1 (hwrite b)) (by simp) (by simp) h
  have hsame : write a = write b := congrArg Text.mk hunits
  have hvalue := hread a
  rw [hsame, hread b] at hvalue
  exact ⟨(Option.some.inj hvalue).symm, (List.cons.inj hrest).2⟩

theorem BinaryOp.symbol_cancel {op op' : BinaryOp} {r r' : List UInt16}
    (h : op.symbol.units ++ Text.unit '(' :: r = op'.symbol.units ++ Text.unit '(' :: r') :
    op = op' ∧ r = r' :=
  Text.bracket_cancel ofSymbol? (by intro op; cases op <;> decide)
    (by intro op; cases op <;> decide) h

theorem UnaryOp.symbol_cancel {op op' : UnaryOp} {r r' : List UInt16}
    (h : op.symbol.units ++ Text.unit '(' :: r = op'.symbol.units ++ Text.unit '(' :: r') :
    op = op' ∧ r = r' :=
  Text.bracket_cancel ofSymbol? (by intro op; cases op <;> decide)
    (by intro op; cases op <;> decide) h

end Reckon
