-- SUMMARY: The structural key of a tree determines the tree, up to the names of unknown kinds.
import Reckon.Expr.Key
import Reckon.Proofs.Delimiting

/-!
# Unique readability of keys

The key of a tree is a concatenation of the keys of its parts, with brackets and
commas between them. Its first unit gives the kind of the node; the names and
numbers in it tell where they end, and a key is followed by nothing or by a comma
or a closing bracket. So by induction the key gives back the tree, except for the
name of an unknown kind, which is not written.
-/

namespace Reckon

/-! ## What keys forget -/

namespace Expr

mutual

/-- The tree with one name for all unknown kinds. -/
def anonymous : Expr → Expr
  | .lit l => .lit l
  | .var name => .var name
  | .field owner name => .field owner name
  | .member target property => .member (anonymous target) property
  | .computed target key => .computed (anonymous target) (anonymous key)
  | .index target position => .index (anonymous target) (anonymous position)
  | .binary op left right => .binary op (anonymous left) (anonymous right)
  | .unary op operand => .unary op (anonymous operand)
  | .cond test consequent alternate =>
    .cond (anonymous test) (anonymous consequent) (anonymous alternate)
  | .call callee args => .call callee (anonymousAll args)
  | .method receiver name args => .method (anonymous receiver) name (anonymousAll args)
  | .group inner => .group (anonymous inner)
  | .array elements => .array (anonymousAll elements)
  | .object properties => .object (anonymousProperties properties)
  | .unknown _ => .unknown Text.empty

def anonymousAll : List Expr → List Expr
  | [] => []
  | x :: xs => anonymous x :: anonymousAll xs

def anonymousProperties : List (Text × Expr) → List (Text × Expr)
  | [] => []
  | (k, x) :: xs => (k, anonymous x) :: anonymousProperties xs

end

mutual

/-- The key does not tell the names of unknown kinds. -/
theorem key_anonymous (x : Expr) : x.anonymous.key = x.key := by
  cases x with
  | lit l => rfl
  | var name => rfl
  | field owner name => rfl
  | member target property => simp only [anonymous, key, key_anonymous target]
  | computed target k => simp only [anonymous, key, key_anonymous target, key_anonymous k]
  | index target position =>
    simp only [anonymous, key, key_anonymous target, key_anonymous position]
  | binary op left right => simp only [anonymous, key, key_anonymous left, key_anonymous right]
  | unary op operand => simp only [anonymous, key, key_anonymous operand]
  | cond test consequent alternate =>
    simp only [anonymous, key, key_anonymous test, key_anonymous consequent,
      key_anonymous alternate]
  | call callee args => simp only [anonymous, key, keys_anonymousAll args]
  | method receiver name args =>
    simp only [anonymous, key, key_anonymous receiver, keys_anonymousAll args]
  | group inner => simp only [anonymous, key, key_anonymous inner]
  | array elements => simp only [anonymous, key, keys_anonymousAll elements]
  | object properties => simp only [anonymous, key, propertyKeys_anonymousProperties properties]
  | unknown kind => rfl

theorem keys_anonymousAll (xs : List Expr) : keys (anonymousAll xs) = keys xs := by
  cases xs with
  | nil => rfl
  | cons x xs => simp only [anonymousAll, keys, key_anonymous x, keys_anonymousAll xs]

theorem propertyKeys_anonymousProperties (xs : List (Text × Expr)) :
    propertyKeys (anonymousProperties xs) = propertyKeys xs := by
  cases xs with
  | nil => rfl
  | cons p xs =>
    simp only [anonymousProperties, propertyKeys, key_anonymous p.2,
      propertyKeys_anonymousProperties xs]

end

/-! ## Reading keys -/

/-- The code of the first unit of the key. -/
def mark : Expr → Nat
  | .lit (.int _) => 105
  | .lit (.float _) => 102
  | .lit (.string _) => 115
  | .lit (.bool true) => 84
  | .lit (.bool false) => 70
  | .lit .null => 78
  | .var _ => 118
  | .field _ _ => 112
  | .member _ _ => 109
  | .computed _ _ => 99
  | .index _ _ => 120
  | .binary _ _ _ => 98
  | .unary _ _ => 117
  | .cond _ _ _ => 116
  | .call _ _ => 102
  | .method _ _ _ => 107
  | .group _ => 103
  | .array _ => 97
  | .object _ => 111
  | .unknown _ => 63

theorem head?_key (x : Expr) : x.key.units.head?.map UInt16.toNat = some x.mark := by
  cases x with
  | lit l =>
    cases l with
    | bool b => cases b <;> rfl
    | _ => rfl
  | _ => rfl

theorem mark_eq {x y : Expr} {r r' : List UInt16} (h : x.key.units ++ r = y.key.units ++ r') :
    x.mark = y.mark := by
  have hhead : ∀ (x : Expr) (r : List UInt16),
      (x.key.units ++ r).head?.map UInt16.toNat = some x.mark := by
    intro x r
    obtain ⟨u, hu, hmark⟩ := Option.map_eq_some_iff.1 (head?_key x)
    rw [List.head?_append, hu, Option.some_or, Option.map_some, hmark]
  have hboth := hhead x r
  rw [h, hhead y r'] at hboth
  exact (Option.some.inj hboth).symm

end Expr

open Text (Ends ends_nil ends_append)

/-- The key of a literal tells the literal and where it ends. -/
theorem Literal.key_cancel {l l' : Literal} {r r' : List UInt16} (hr : Ends r) (hr' : Ends r')
    (h : l.key.units ++ r = l'.key.units ++ r') : l = l' ∧ r = r' := by
  have hmark := Expr.mark_eq (x := .lit l) (y := .lit l') h
  cases l with
  | int n =>
    cases l' with
    | int n' =>
      obtain ⟨hn, hrest⟩ := Text.number_cancel (fun u => Text.isNumberUnit_ofInt)
        (fun u => Text.isNumberUnit_ofInt) hr hr' (List.cons.inj h).2
      exact ⟨congrArg _ (Text.ofInt_inj hn), hrest⟩
    | bool b => cases b <;> cases hmark
    | _ => cases hmark
  | float x =>
    cases l' with
    | float x' =>
      obtain ⟨hx, hrest⟩ := Text.number_cancel (fun u => Double.isNumberUnit_constantText)
        (fun u => Double.isNumberUnit_constantText) hr hr' (List.cons.inj h).2
      exact ⟨congrArg _ (Double.constantText_inj hx), hrest⟩
    | bool b => cases b <;> cases hmark
    | _ => cases hmark
  | string s =>
    cases l' with
    | string s' =>
      obtain ⟨rfl, hrest⟩ := Text.quoted_cancel (List.cons.inj h).2
      exact ⟨rfl, hrest⟩
    | bool b => cases b <;> cases hmark
    | _ => cases hmark
  | bool b =>
    cases l' with
    | bool b' =>
      cases b <;> cases b'
      · exact ⟨rfl, (List.cons.inj h).2⟩
      · cases hmark
      · cases hmark
      · exact ⟨rfl, (List.cons.inj h).2⟩
    | _ => cases b <;> cases hmark
  | null =>
    cases l' with
    | null => exact ⟨rfl, (List.cons.inj h).2⟩
    | bool b => cases b <;> cases hmark
    | _ => cases hmark

namespace Expr

/-- The key of a literal is not that of another node. -/
theorem lit_key_cancel {l : Literal} {x : Expr} {r r' : List UInt16} (hr : Ends r) (hr' : Ends r')
    (h : (lit l).key.units ++ r = x.key.units ++ r') : lit l = x ∧ r = r' := by
  have hmark := mark_eq h
  cases x with
  | lit l' =>
    obtain ⟨rfl, hrest⟩ := Literal.key_cancel hr hr' h
    exact ⟨rfl, hrest⟩
  | call callee args =>
    cases l with
    | float x =>
      -- Both begin with the same unit, but a name is quoted and a number is not.
      have hhead : (x.constantText.units ++ r).head? = some (Text.unit '"') :=
        congrArg List.head? (List.cons.inj h).2
      rw [List.head?_append] at hhead
      rcases Option.or_eq_some_iff.1 hhead with hnumber | ⟨-, hrest⟩
      · have hunit := Double.isNumberUnit_constantText (List.mem_of_head? hnumber)
        exact absurd rfl (Text.isNumberUnit_cases hunit).2
      · cases hr _ hrest
    | bool b => cases b <;> cases hmark
    | _ => cases hmark
  | _ =>
    cases l with
    | bool b => cases b <;> cases hmark
    | _ => cases hmark

/-! ## Lists of keys -/

/-- What closes a list of keys. -/
def closers : List Text := [")", "]", "\x7d"]

theorem closer_eq {close : Text} (h : close ∈ closers) :
    ∃ u, close.units = [u] ∧ Text.isStop u = true ∧ u ≠ Text.unit ',' := by
  have hall : closers.all fun t => t.units.length = 1 && t.units.all fun u =>
      Text.isStop u && u != Text.unit ',' := by decide
  have hclose := List.all_eq_true.1 hall close h
  obtain ⟨units⟩ := close
  match units, hclose with
  | [u], hclose => exact ⟨u, rfl, by simpa using hclose⟩

section

variable {α β : Type} {write : α → Text} {view : α → β}

/-- What is written tells its view and where it ends. -/
def Readable (write : α → Text) (view : α → β) (a : α) : Prop :=
  ∀ b r r', Ends r → Ends r' → (write a).units ++ r = (write b).units ++ r' →
    view a = view b ∧ r = r'

theorem ends_commas {close : Text} (hclose : close ∈ closers) (as : List α) (r : List UInt16) :
    Ends (as.flatMap (fun a => Text.unit ',' :: (write a).units) ++ (close.units ++ r)) := by
  obtain ⟨u, hunits, hstop, -⟩ := closer_eq hclose
  rw [hunits]
  cases as with
  | nil => rintro v ⟨⟩; exact hstop
  | cons a as => rintro v ⟨⟩; decide

theorem commas_cancel {close : Text} (hclose : close ∈ closers) {as bs : List α}
    {r r' : List UInt16} (has : ∀ a ∈ as, Readable write view a)
    (h : as.flatMap (fun a => Text.unit ',' :: (write a).units) ++ (close.units ++ r) =
      bs.flatMap (fun b => Text.unit ',' :: (write b).units) ++ (close.units ++ r')) :
    as.map view = bs.map view ∧ r = r' := by
  obtain ⟨u, hunits, -, hcomma⟩ := closer_eq hclose
  induction as generalizing bs with
  | nil =>
    cases bs with
    | nil => exact ⟨rfl, List.append_cancel_left h⟩
    | cons b bs =>
      rw [hunits] at h
      exact absurd (List.cons.inj h).1 hcomma
  | cons a as ih =>
    cases bs with
    | nil =>
      rw [hunits] at h
      exact absurd (List.cons.inj h).1.symm hcomma
    | cons b bs =>
      simp only [List.flatMap_cons, List.cons_append, List.append_assoc] at h
      obtain ⟨hview, hrest⟩ := has a List.mem_cons_self b _ _ (ends_commas hclose as r)
        (ends_commas hclose bs r') (List.cons.inj h).2
      obtain ⟨hviews, hend⟩ := ih (fun a ha => has a (List.mem_cons_of_mem _ ha)) hrest
      exact ⟨by rw [List.map_cons, List.map_cons, hview, hviews], hend⟩

end

theorem keys_eq_map (xs : List Expr) : keys xs = xs.map key := by
  induction xs with
  | nil => rfl
  | cons x xs ih => rw [keys, ih, List.map_cons]

/-- The key of a property. -/
def propertyKey (p : Text × Expr) : Text := p.1.quoted ++ ":" ++ p.2.key

theorem propertyKeys_eq_map (xs : List (Text × Expr)) :
    propertyKeys xs = xs.map propertyKey := by
  induction xs with
  | nil => rfl
  | cons p xs ih => rw [propertyKeys, ih, List.map_cons, propertyKey]

theorem anonymousAll_eq_map (xs : List Expr) : anonymousAll xs = xs.map anonymous := by
  induction xs with
  | nil => rfl
  | cons x xs ih => rw [anonymousAll, ih, List.map_cons]

theorem anonymousProperties_eq_map (xs : List (Text × Expr)) :
    anonymousProperties xs = xs.map fun p => (p.1, p.2.anonymous) := by
  induction xs with
  | nil => rfl
  | cons p xs ih => rw [anonymousProperties, ih, List.map_cons]

theorem units_join_cons (t : Text) (ts : List Text) :
    (Text.join "," (t :: ts)).units =
      t.units ++ ts.flatMap fun t => Text.unit ',' :: t.units := by
  induction ts generalizing t with
  | nil => simp [Text.join]
  | cons s ts ih =>
    have hs := ih s
    simp only [Text.join, List.map_cons, List.intersperse_cons_cons, List.flatten_cons] at hs ⊢
    rw [hs]
    rfl

/-- A list of readable items with commas between them is readable up to what closes it. -/
theorem join_cancel {α β : Type} {write : α → Text} {view : α → β} {close : Text}
    (hclose : close ∈ closers) (hstart : ∀ a r, ¬ Ends ((write a).units ++ r)) {as bs : List α}
    {r r' : List UInt16} (has : ∀ a ∈ as, Readable write view a)
    (h : (Text.join "," (as.map write)).units ++ (close.units ++ r) =
      (Text.join "," (bs.map write)).units ++ (close.units ++ r')) :
    as.map view = bs.map view ∧ r = r' := by
  obtain ⟨u, hunits, hstop, -⟩ := closer_eq hclose
  have hends : ∀ r, Ends (close.units ++ r) := by
    intro r v hv
    rw [hunits] at hv
    cases hv
    exact hstop
  cases as with
  | nil =>
    cases bs with
    | nil => exact ⟨rfl, List.append_cancel_left h⟩
    | cons b bs =>
      rw [List.map_cons, units_join_cons, List.append_assoc] at h
      exact absurd (h ▸ hends r) (hstart b _)
  | cons a as =>
    cases bs with
    | nil =>
      rw [List.map_cons, units_join_cons, List.append_assoc] at h
      exact absurd (h ▸ hends r') (hstart a _)
    | cons b bs =>
      simp only [List.map_cons, units_join_cons, List.append_assoc, List.flatMap_map] at h
      obtain ⟨hview, hrest⟩ := has a List.mem_cons_self b _ _ (ends_commas hclose as r)
        (ends_commas hclose bs r') h
      obtain ⟨hviews, hend⟩ := commas_cancel hclose
        (fun a ha => has a (List.mem_cons_of_mem _ ha)) hrest
      exact ⟨by rw [List.map_cons, List.map_cons, hview, hviews], hend⟩

theorem not_ends_key (x : Expr) (r : List UInt16) : ¬ Ends (x.key.units ++ r) := by
  intro h
  cases x with
  | lit l =>
    cases l with
    | bool b => cases b <;> cases h _ rfl
    | _ => cases h _ rfl
  | _ => cases h _ rfl

theorem not_ends_propertyKey (p : Text × Expr) (r : List UInt16) :
    ¬ Ends ((propertyKey p).units ++ r) := by
  intro h
  cases h _ rfl

mutual

/-- The key of a tree tells the tree, up to the names of unknown kinds, and where it ends. -/
theorem readable_key (x : Expr) : Readable key anonymous x := by
  intro y r r' hr hr' h
  have hmark := mark_eq h
  cases x with
  | lit l =>
    obtain ⟨rfl, hrest⟩ := lit_key_cancel hr hr' h
    exact ⟨rfl, hrest⟩
  | var name =>
    cases y with
    | lit l => cases (lit_key_cancel hr' hr h.symm).1
    | var name' =>
      obtain ⟨rfl, hrest⟩ := Text.quoted_cancel (List.cons.inj h).2
      exact ⟨rfl, hrest⟩
    | _ => cases hmark
  | field owner name =>
    cases y with
    | lit l => cases (lit_key_cancel hr' hr h.symm).1
    | field owner' name' =>
      simp only [key, Text.units_append, List.append_assoc] at h
      obtain ⟨rfl, h₁⟩ := Text.quoted_cancel (List.append_cancel_left h)
      obtain ⟨rfl, h₂⟩ := Text.quoted_cancel (List.append_cancel_left h₁)
      exact ⟨rfl, h₂⟩
    | _ => cases hmark
  | member target property =>
    cases y with
    | lit l => cases (lit_key_cancel hr' hr h.symm).1
    | member target' property' =>
      simp only [key, Text.units_append, List.append_assoc] at h
      obtain ⟨htarget, h₁⟩ := readable_key target target' _ _ (ends_append rfl _)
        (ends_append rfl _) (List.append_cancel_left h)
      obtain ⟨rfl, h₂⟩ := Text.quoted_cancel (List.append_cancel_left h₁)
      exact ⟨by rw [anonymous, anonymous, htarget], h₂⟩
    | _ => cases hmark
  | computed target k =>
    cases y with
    | lit l => cases (lit_key_cancel hr' hr h.symm).1
    | computed target' k' =>
      simp only [key, Text.units_append, List.append_assoc] at h
      obtain ⟨htarget, h₁⟩ := readable_key target target' _ _ (ends_append rfl _)
        (ends_append rfl _) (List.append_cancel_left h)
      obtain ⟨hk, h₂⟩ := readable_key k k' _ _ (ends_append rfl _) (ends_append rfl _)
        (List.append_cancel_left h₁)
      exact ⟨by rw [anonymous, anonymous, htarget, hk], List.append_cancel_left h₂⟩
    | _ => cases hmark
  | index target position =>
    cases y with
    | lit l => cases (lit_key_cancel hr' hr h.symm).1
    | index target' position' =>
      simp only [key, Text.units_append, List.append_assoc] at h
      obtain ⟨htarget, h₁⟩ := readable_key target target' _ _ (ends_append rfl _)
        (ends_append rfl _) (List.append_cancel_left h)
      obtain ⟨hposition, h₂⟩ := readable_key position position' _ _ (ends_append rfl _)
        (ends_append rfl _) (List.append_cancel_left h₁)
      exact ⟨by rw [anonymous, anonymous, htarget, hposition], List.append_cancel_left h₂⟩
    | _ => cases hmark
  | binary op left right =>
    cases y with
    | lit l => cases (lit_key_cancel hr' hr h.symm).1
    | binary op' left' right' =>
      simp only [key, Text.units_append, List.append_assoc] at h
      obtain ⟨rfl, h₁⟩ := BinaryOp.symbol_cancel (List.cons.inj h).2
      obtain ⟨hleft, h₂⟩ := readable_key left left' _ _ (ends_append rfl _) (ends_append rfl _) h₁
      obtain ⟨hright, h₃⟩ := readable_key right right' _ _ (ends_append rfl _) (ends_append rfl _)
        (List.append_cancel_left h₂)
      exact ⟨by rw [anonymous, anonymous, hleft, hright], List.append_cancel_left h₃⟩
    | _ => cases hmark
  | unary op operand =>
    cases y with
    | lit l => cases (lit_key_cancel hr' hr h.symm).1
    | unary op' operand' =>
      simp only [key, Text.units_append, List.append_assoc] at h
      obtain ⟨rfl, h₁⟩ := UnaryOp.symbol_cancel (List.cons.inj h).2
      obtain ⟨hoperand, h₂⟩ := readable_key operand operand' _ _ (ends_append rfl _)
        (ends_append rfl _) h₁
      exact ⟨by rw [anonymous, anonymous, hoperand], List.append_cancel_left h₂⟩
    | _ => cases hmark
  | cond test consequent alternate =>
    cases y with
    | lit l => cases (lit_key_cancel hr' hr h.symm).1
    | cond test' consequent' alternate' =>
      simp only [key, Text.units_append, List.append_assoc] at h
      obtain ⟨htest, h₁⟩ := readable_key test test' _ _ (ends_append rfl _) (ends_append rfl _)
        (List.append_cancel_left h)
      obtain ⟨hconsequent, h₂⟩ := readable_key consequent consequent' _ _ (ends_append rfl _)
        (ends_append rfl _) (List.append_cancel_left h₁)
      obtain ⟨halternate, h₃⟩ := readable_key alternate alternate' _ _ (ends_append rfl _)
        (ends_append rfl _) (List.append_cancel_left h₂)
      exact ⟨by rw [anonymous, anonymous, htest, hconsequent, halternate],
        List.append_cancel_left h₃⟩
    | _ => cases hmark
  | call callee args =>
    cases y with
    | lit l => cases (lit_key_cancel hr' hr h.symm).1
    | call callee' args' =>
      simp only [key, keys_eq_map, Text.units_append, List.append_assoc] at h
      obtain ⟨rfl, h₁⟩ := Text.quoted_cancel (List.append_cancel_left h)
      obtain ⟨hargs, h₂⟩ := join_cancel (by decide) not_ends_key (readable_keys args)
        (List.append_cancel_left h₁)
      exact ⟨by rw [anonymous, anonymous, anonymousAll_eq_map, anonymousAll_eq_map, hargs], h₂⟩
    | _ => cases hmark
  | method receiver name args =>
    cases y with
    | lit l => cases (lit_key_cancel hr' hr h.symm).1
    | method receiver' name' args' =>
      simp only [key, keys_eq_map, Text.units_append, List.append_assoc] at h
      obtain ⟨hreceiver, h₁⟩ := readable_key receiver receiver' _ _ (ends_append rfl _)
        (ends_append rfl _) (List.append_cancel_left h)
      obtain ⟨rfl, h₂⟩ := Text.quoted_cancel (List.append_cancel_left h₁)
      obtain ⟨hargs, h₃⟩ := join_cancel (by decide) not_ends_key (readable_keys args)
        (List.append_cancel_left h₂)
      refine ⟨?_, h₃⟩
      rw [anonymous, anonymous, hreceiver, anonymousAll_eq_map, anonymousAll_eq_map, hargs]
    | _ => cases hmark
  | group inner =>
    cases y with
    | lit l => cases (lit_key_cancel hr' hr h.symm).1
    | group inner' =>
      simp only [key, Text.units_append, List.append_assoc] at h
      obtain ⟨hinner, h₁⟩ := readable_key inner inner' _ _ (ends_append rfl _) (ends_append rfl _)
        (List.append_cancel_left h)
      exact ⟨by rw [anonymous, anonymous, hinner], List.append_cancel_left h₁⟩
    | _ => cases hmark
  | array elements =>
    cases y with
    | lit l => cases (lit_key_cancel hr' hr h.symm).1
    | array elements' =>
      simp only [key, keys_eq_map, Text.units_append, List.append_assoc] at h
      obtain ⟨helements, h₁⟩ := join_cancel (by decide) not_ends_key (readable_keys elements)
        (List.append_cancel_left h)
      refine ⟨?_, h₁⟩
      rw [anonymous, anonymous, anonymousAll_eq_map, anonymousAll_eq_map, helements]
    | _ => cases hmark
  | object properties =>
    cases y with
    | lit l => cases (lit_key_cancel hr' hr h.symm).1
    | object properties' =>
      simp only [key, propertyKeys_eq_map, Text.units_append, List.append_assoc] at h
      obtain ⟨hproperties, h₁⟩ := join_cancel (by decide) not_ends_propertyKey
        (readable_propertyKeys properties) (List.append_cancel_left h)
      refine ⟨?_, h₁⟩
      rw [anonymous, anonymous, anonymousProperties_eq_map, anonymousProperties_eq_map, hproperties]
    | _ => cases hmark
  | unknown kind =>
    cases y with
    | lit l => cases (lit_key_cancel hr' hr h.symm).1
    | unknown kind' => exact ⟨rfl, (List.cons.inj h).2⟩
    | _ => cases hmark

theorem readable_keys (xs : List Expr) : ∀ x ∈ xs, Readable key anonymous x := by
  cases xs with
  | nil => exact List.forall_mem_nil _
  | cons x xs => exact List.forall_mem_cons.2 ⟨readable_key x, readable_keys xs⟩

theorem readable_propertyKeys (xs : List (Text × Expr)) :
    ∀ p ∈ xs, Readable propertyKey (fun p => (p.1, p.2.anonymous)) p := by
  cases xs with
  | nil => exact List.forall_mem_nil _
  | cons p xs =>
    refine List.forall_mem_cons.2 ⟨?_, readable_propertyKeys xs⟩
    intro q r r' hr hr' h
    simp only [propertyKey, Text.units_append, List.append_assoc] at h
    obtain ⟨hname, h₁⟩ := Text.quoted_cancel h
    obtain ⟨hvalue, h₂⟩ := readable_key p.2 q.2 _ _ hr hr' (List.append_cancel_left h₁)
    exact ⟨Prod.ext hname hvalue, h₂⟩

end

theorem anonymous_of_key_eq {x y : Expr} (h : x.key = y.key) : x.anonymous = y.anonymous :=
  (readable_key x y _ _ ends_nil ends_nil (by rw [h])).1

/-- Two trees have the same key exactly if they are the same but for the names of unknown
    kinds. -/
theorem key_eq_iff (x y : Expr) : x.key = y.key ↔ x.anonymous = y.anonymous := by
  constructor
  · exact anonymous_of_key_eq
  · intro h
    rw [← key_anonymous x, h, key_anonymous]

end Expr

end Reckon
