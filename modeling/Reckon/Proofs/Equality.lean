-- SUMMARY: Equality of values is symmetric and transitive, does not see the order of entries, and fails on copies for not-a-number only.
import Reckon.Proofs.Nesting
import Reckon.Proofs.WellFormed

/-!
# Equality

Equality looks up each entry of the first object in the second one and compares
how many there are. Where the keys of every object are distinct, this treats both
sides alike: as many different keys on both sides, all of the first found in the
second, are the same keys. So equality is symmetric, and the order of entries
makes no difference on either side, at any depth. It is transitive as well. It is
not reflexive, because a not-a-number differs from itself: a value equals its copy
exactly if there is none in it.
-/

namespace Reckon

/-! ## Numbers and keys -/

namespace Double

theorem eq_iff {x y : Double} :
    x.eq y = true ↔ ∃ r, x.signedRank? = some r ∧ y.signedRank? = some r := by
  unfold eq compare?
  cases x.signedRank? with
  | none => simp
  | some p =>
    cases y.signedRank? with
    | none => simp
    | some q =>
      simp only [Option.some.injEq, decide_eq_true_eq, Int.compare_eq_eq, exists_eq_left']
      exact eq_comm

theorem eq_self_iff {x : Double} : x.eq x = true ↔ x ≠ .nan := by
  rw [eq_iff]
  cases x <;> simp [signedRank?]

end Double

namespace Entries

variable {α β : Type} {xs : Entries α} {ys : Entries β}

/-- As many different keys, all of which are among others, are all of the others. -/
theorem mem_keys_of_length_eq (hxs : (keys xs).Nodup) (hlength : xs.length = ys.length)
    (hsubset : ∀ k ∈ keys xs, k ∈ keys ys) {k : Text} (hk : k ∈ keys ys) : k ∈ keys xs := by
  apply Classical.byContradiction
  intro hnew
  have hmore : (k :: keys xs).Nodup := List.nodup_cons.2 ⟨hnew, hxs⟩
  have hle : (k :: keys xs).length ≤ (keys ys).length := by
    apply hmore.length_le_of_subset
    intro k' hk'
    rcases List.mem_cons.1 hk' with rfl | hk'
    · exact hk
    · exact hsubset k' hk'
  simp only [keys, List.length_cons, List.length_map] at hle
  omega

end Entries

namespace Value

/-- The keys of every object inside the value are distinct. -/
def DistinctKeys (v : Value) : Prop :=
  ∀ entries, Inside children (.object entries) v → (Entries.keys entries).Nodup

/-- There is a not-a-number inside the value. -/
def HasNaN (v : Value) : Prop := Inside children (.float .nan) v

theorem DistinctKeys.child {v w : Value} (h : v.DistinctKeys) (hw : w ∈ v.children) :
    w.DistinctKeys :=
  fun entries hentries => h entries (.child hw hentries)

theorem DistinctKeys.nodup {entries : List (Text × Value)}
    (h : (object entries).DistinctKeys) : (Entries.keys entries).Nodup :=
  h entries (.refl _)

theorem DistinctKeys.of_mem {entries : List (Text × Value)} {e : Text × Value}
    (h : (object entries).DistinctKeys) (he : e ∈ entries) : e.2.DistinctKeys :=
  h.child (List.mem_map_of_mem he)

theorem distinctKeys_of_children {v : Value}
    (hnodup : ∀ entries, v = .object entries → (Entries.keys entries).Nodup)
    (hchildren : ∀ w ∈ v.children, w.DistinctKeys) : v.DistinctKeys := by
  intro entries hinside
  rcases inside_iff.1 hinside with heq | ⟨w, hw, hinside⟩
  · exact hnodup entries heq.symm
  · exact hchildren w hw entries hinside

theorem WellFormed.distinctKeys {v : Value} (h : v.WellFormed) : v.DistinctKeys := by
  induction v using children_induction with
  | step v ih =>
    cases v with
    | array items =>
      rw [WellFormed, wellFormedItems_iff] at h
      exact distinctKeys_of_children (by simp) fun w hw => ih w hw (h w hw)
    | object entries =>
      rw [WellFormed, wellFormedEntries_iff] at h
      refine distinctKeys_of_children ?_ fun w hw => ih w hw ?_
      · rintro _ ⟨⟩
        exact h.1
      · obtain ⟨e, he, rfl⟩ := List.mem_map.1 hw
        exact h.2 e he
    | _ => exact distinctKeys_of_children (by simp) (by simp [children])

/-! ## Containers -/

theorem equal_array_iff {xs ys : List Value} :
    (array xs).equal (.array ys) = true ↔
      xs.length = ys.length ∧
        ∀ (i : Nat) x y, xs[i]? = some x → ys[i]? = some y → x.equal y = true := by
  rw [equal]
  induction xs generalizing ys with
  | nil => cases ys <;> simp [equalItems]
  | cons x xs ih =>
    cases ys with
    | nil => simp [equalItems]
    | cons y ys =>
      rw [equalItems, Bool.and_eq_true, ih]
      constructor
      · rintro ⟨hfirst, hlength, hrest⟩
        refine ⟨by simp [hlength], fun i => ?_⟩
        cases i with
        | zero => simpa using hfirst
        | succ i => simpa using hrest i
      · rintro ⟨hlength, hall⟩
        refine ⟨hall 0 x y rfl rfl, by simpa using hlength, fun i => ?_⟩
        simpa using hall (i + 1)

theorem equal_object_iff {xs ys : List (Text × Value)} :
    (object xs).equal (.object ys) = true ↔
      xs.length = ys.length ∧
        ∀ e ∈ xs, ∃ y, Entries.get? ys e.1 = some y ∧ e.2.equal y = true := by
  have hentries : equalEntries xs ys = true ↔
      ∀ e ∈ xs, ∃ y, Entries.get? ys e.1 = some y ∧ e.2.equal y = true := by
    induction xs with
    | nil => simp [equalEntries]
    | cons e xs ih =>
      rw [equalEntries, Bool.and_eq_true, ih, List.forall_mem_cons]
      cases Entries.get? ys e.1 <;> simp
  rw [equal, Bool.and_eq_true, decide_eq_true_eq, hentries]

/-- Equal values are the same scalar, two numbers, two arrays or two objects. -/
theorem equal_cases {a b : Value} (h : a.equal b = true) :
    a = b ∨ (∃ x y, a = .float x ∧ b = .float y) ∨ (∃ xs ys, a = .array xs ∧ b = .array ys) ∨
      ∃ xs ys, a = .object xs ∧ b = .object ys := by
  cases a with
  | float x =>
    cases b with
    | float y => exact .inr (.inl ⟨x, y, rfl, rfl⟩)
    | _ => cases h
  | array xs =>
    cases b with
    | array ys => exact .inr (.inr (.inl ⟨xs, ys, rfl, rfl⟩))
    | _ => cases h
  | object xs =>
    cases b with
    | object ys => exact .inr (.inr (.inr ⟨xs, ys, rfl, rfl⟩))
    | _ => cases h
  | _ => exact .inl (by cases b <;> simp_all [equal])

/-! ## Symmetry and transitivity -/

theorem equal_symm {a b : Value} (ha : a.DistinctKeys) (hb : b.DistinctKeys)
    (h : a.equal b = true) : b.equal a = true := by
  induction a using children_induction generalizing b with
  | step a ih =>
    rcases equal_cases h with rfl | ⟨x, y, rfl, rfl⟩ | ⟨xs, ys, rfl, rfl⟩ | ⟨xs, ys, rfl, rfl⟩
    · exact h
    · obtain ⟨r, hx, hy⟩ := Double.eq_iff.1 h
      exact Double.eq_iff.2 ⟨r, hy, hx⟩
    · obtain ⟨hlength, hitems⟩ := equal_array_iff.1 h
      refine equal_array_iff.2 ⟨hlength.symm, fun i y x hy hx => ?_⟩
      have hmem : x ∈ (array xs).children := List.mem_of_getElem? hx
      have hmem' : y ∈ (array ys).children := List.mem_of_getElem? hy
      exact ih x hmem (ha.child hmem) (hb.child hmem') (hitems i x y hx hy)
    · obtain ⟨hlength, hentries⟩ := equal_object_iff.1 h
      have hsubset : ∀ k ∈ Entries.keys xs, k ∈ Entries.keys ys := by
        intro k hk
        obtain ⟨e, he, rfl⟩ := List.mem_map.1 hk
        obtain ⟨y, hy, -⟩ := hentries e he
        exact Entries.mem_keys_iff.2 ⟨y, hy⟩
      refine equal_object_iff.2 ⟨hlength.symm, fun e he => ?_⟩
      have hkey := Entries.mem_keys_of_length_eq ha.nodup hlength hsubset
        (List.mem_map_of_mem he)
      obtain ⟨x, hx⟩ := Entries.mem_keys_iff.1 hkey
      have hmem := Entries.mem_of_get? hx
      obtain ⟨y, hy, hequal⟩ := hentries _ hmem
      -- What the key of an entry finds in the second object is the entry itself.
      have hfound : Entries.get? ys e.1 = some e.2 := Entries.get?_of_mem hb.nodup he
      obtain rfl : e.2 = y := Option.some.inj (hfound.symm.trans hy)
      exact ⟨x, hx, ih x (List.mem_map_of_mem hmem) (ha.of_mem hmem) (hb.of_mem he) hequal⟩

theorem equal_comm {a b : Value} (ha : a.DistinctKeys) (hb : b.DistinctKeys) :
    a.equal b = b.equal a :=
  Bool.eq_iff_iff.2 ⟨equal_symm ha hb, equal_symm hb ha⟩

theorem equal_trans {a b c : Value} (hab : a.equal b = true) (hbc : b.equal c = true) :
    a.equal c = true := by
  induction a using children_induction generalizing b c with
  | step a ih =>
    rcases equal_cases hab with rfl | ⟨x, y, rfl, rfl⟩ | ⟨xs, ys, rfl, rfl⟩ | ⟨xs, ys, rfl, rfl⟩
    · exact hbc
    · cases c with
      | float z =>
        obtain ⟨r, hx, hy⟩ := Double.eq_iff.1 hab
        obtain ⟨s, hy', hz⟩ := Double.eq_iff.1 hbc
        obtain rfl : r = s := Option.some.inj (hy.symm.trans hy')
        exact Double.eq_iff.2 ⟨r, hx, hz⟩
      | _ => cases hbc
    · cases c with
      | array zs =>
        obtain ⟨hlength, hitems⟩ := equal_array_iff.1 hab
        obtain ⟨hlength', hitems'⟩ := equal_array_iff.1 hbc
        refine equal_array_iff.2 ⟨hlength.trans hlength', fun i x z hx hz => ?_⟩
        have hlt : i < ys.length := hlength ▸ (List.getElem?_eq_some_iff.1 hx).1
        have hy : ys[i]? = some ys[i] := List.getElem?_eq_getElem hlt
        exact ih x (List.mem_of_getElem? hx) (hitems i x _ hx hy) (hitems' i _ z hy hz)
      | _ => cases hbc
    · cases c with
      | object zs =>
        obtain ⟨hlength, hentries⟩ := equal_object_iff.1 hab
        obtain ⟨hlength', hentries'⟩ := equal_object_iff.1 hbc
        refine equal_object_iff.2 ⟨hlength.trans hlength', fun e he => ?_⟩
        obtain ⟨y, hy, hequal⟩ := hentries e he
        obtain ⟨z, hz, hequal'⟩ := hentries' _ (Entries.mem_of_get? hy)
        exact ⟨z, hz, ih e.2 (List.mem_map_of_mem he) hequal hequal'⟩
      | _ => cases hbc

/-! ## Copies -/

theorem equal_self_iff {v : Value} (hv : v.DistinctKeys) : v.equal v = true ↔ ¬ v.HasNaN := by
  induction v using children_induction with
  | step v ih =>
    have hchildren : ¬ v.HasNaN ↔ .float .nan ≠ v ∧ ∀ w ∈ v.children, w.equal w = true := by
      rw [HasNaN, inside_iff, not_or]
      refine and_congr_right fun _ => ?_
      constructor
      · intro hnone w hw
        exact (ih w hw (hv.child hw)).2 fun hnan => hnone ⟨w, hw, hnan⟩
      · rintro hequal ⟨w, hw, hnan⟩
        exact (ih w hw (hv.child hw)).1 (hequal w hw) hnan
    rw [hchildren]
    cases v with
    | float x =>
      rw [equal, Double.eq_self_iff, ne_eq, ne_eq, float.injEq, eq_comm]
      simp [children]
    | array xs =>
      rw [equal_array_iff]
      constructor
      · rintro ⟨-, hitems⟩
        refine ⟨by simp, fun w hw => ?_⟩
        obtain ⟨i, hi⟩ := List.getElem?_of_mem hw
        exact hitems i w w hi hi
      · rintro ⟨-, hitems⟩
        refine ⟨rfl, fun i x y hx hy => ?_⟩
        obtain rfl : x = y := Option.some.inj (hx.symm.trans hy)
        exact hitems x (List.mem_of_getElem? hx)
    | object xs =>
      have hfound : ∀ e ∈ xs, Entries.get? xs e.1 = some e.2 :=
        fun e he => Entries.get?_of_mem hv.nodup he
      rw [equal_object_iff]
      constructor
      · rintro ⟨-, hentries⟩
        refine ⟨by simp, fun w hw => ?_⟩
        obtain ⟨e, he, rfl⟩ := List.mem_map.1 hw
        obtain ⟨y, hy, hequal⟩ := hentries e he
        obtain rfl : e.2 = y := Option.some.inj ((hfound e he).symm.trans hy)
        exact hequal
      · rintro ⟨-, hentries⟩
        exact ⟨rfl, fun e he => ⟨e.2, hfound e he, hentries e.2 (List.mem_map_of_mem he)⟩⟩
    | _ => simp [equal, children]

/-! ## The order of entries -/

/-- The second value is the first one with the entries of objects inside it put into
    another order. -/
inductive Shuffled : Value → Value → Prop where
  | refl (v : Value) : Shuffled v v
  | trans {u v w : Value} (huv : Shuffled u v) (hvw : Shuffled v w) : Shuffled u w
  | permute {xs ys : List (Text × Value)} (h : xs.Perm ys) : Shuffled (.object xs) (.object ys)
  | item (before after : List Value) {v w : Value} (h : Shuffled v w) :
    Shuffled (.array (before ++ v :: after)) (.array (before ++ w :: after))
  | entry (before after : List (Text × Value)) (key : Text) {v w : Value} (h : Shuffled v w) :
    Shuffled (.object (before ++ (key, v) :: after)) (.object (before ++ (key, w) :: after))

namespace Shuffled

variable {a a' : Value}

theorem distinctKeys (h : Shuffled a a') (ha : a.DistinctKeys) : a'.DistinctKeys := by
  induction h with
  | refl v => exact ha
  | trans _ _ ih ih' => exact ih' (ih ha)
  | permute hperm =>
    refine distinctKeys_of_children ?_ fun w hw => ha.child ?_
    · rintro _ ⟨⟩
      exact (hperm.map Prod.fst).nodup_iff.1 ha.nodup
    · exact (hperm.map Prod.snd).mem_iff.2 hw
  | item before after _ ih =>
    refine distinctKeys_of_children (by simp) fun u hu => ?_
    simp only [children, List.mem_append, List.mem_cons] at hu
    rcases hu with hu | rfl | hu
    · exact ha.child (by simp [children, hu])
    · exact ih (ha.child (by simp [children]))
    · exact ha.child (by simp [children, hu])
  | entry before after key _ ih =>
    refine distinctKeys_of_children ?_ fun u hu => ?_
    · rintro _ ⟨⟩
      simpa [Entries.keys] using ha.nodup
    · obtain ⟨e, he, rfl⟩ := List.mem_map.1 hu
      rcases List.mem_append.1 he with he | he
      · exact ha.of_mem (List.mem_append_left _ he)
      · rcases List.mem_cons.1 he with rfl | he
        · exact ih (ha.of_mem (e := (key, _)) (by simp))
        · exact ha.of_mem (by simp [he])

/-- The first side is gone through from front to back, so its order never mattered. -/
theorem equal_left (h : Shuffled a a') (b : Value) : a'.equal b = a.equal b := by
  induction h generalizing b with
  | refl v => rfl
  | trans _ _ ih ih' => exact (ih' b).trans (ih b)
  | permute hperm =>
    cases b with
    | object zs =>
      rw [Bool.eq_iff_iff, equal_object_iff, equal_object_iff, hperm.length_eq]
      simp only [hperm.mem_iff]
    | _ => rfl
  | item before after _ ih =>
    cases b with
    | array zs =>
      simp only [equal]
      induction before generalizing zs with
      | nil => cases zs <;> simp [equalItems, ih]
      | cons x before ihb => cases zs <;> simp [equalItems, ihb]
    | _ => rfl
  | entry before after key _ ih =>
    cases b with
    | object zs =>
      rw [Bool.eq_iff_iff, equal_object_iff, equal_object_iff]
      simp only [List.length_append, List.length_cons, List.forall_mem_append,
        List.forall_mem_cons, ih]
    | _ => rfl

/-- The second side is looked up, so this needs the keys to be distinct. -/
theorem equal_right (h : Shuffled a a') (ha : a.DistinctKeys) {b : Value}
    (hb : b.DistinctKeys) : b.equal a' = b.equal a := by
  rw [equal_comm hb (h.distinctKeys ha), h.equal_left, equal_comm ha hb]

end Shuffled

/-- Between values whose objects have distinct keys, equality is symmetric and transitive and
    does not depend on the order of entries at any depth, on neither side. A value equals its
    copy if and only if there is no not-a-number inside it. -/
theorem equal_partialEquivalence {a b : Value} (ha : a.DistinctKeys) (hb : b.DistinctKeys) :
    (a.equal b = true → b.equal a = true) ∧
    (∀ c : Value, a.equal b = true → b.equal c = true → a.equal c = true) ∧
    (∀ a' b', Shuffled a a' → Shuffled b b' → a'.equal b' = a.equal b) ∧
    (a.equal a.copy = true ↔ ¬ a.HasNaN) := by
  refine ⟨equal_symm ha hb, fun c => equal_trans, ?_, ?_⟩
  · intro a' b' ha' hb'
    rw [hb'.equal_right hb (ha'.distinctKeys ha), ha'.equal_left]
  · rw [copy_eq_self]
    exact equal_self_iff ha

/-- Two objects in an array, with the entries in different orders and both zeros. -/
def outlined : Value :=
  .array [.int 1, .object [("x", .float (.zero false)), ("tags", .array [.null, .absent .string])]]

def outlined' : Value :=
  .array [.int 1, .object [("tags", .array [.null, .absent .string]), ("x", .float (.zero true))]]

theorem equal_outlined :
    outlined.equal outlined' = true ∧ outlined'.equal outlined = true ∧
      (∀ a b, Shuffled outlined a → Shuffled outlined' b → a.equal b = true) ∧
      ¬ outlined.HasNaN := by
  have hkeys : (Entries.keys [("x", Value.float (.zero false)),
      ("tags", .array [.null, .absent .string])]).Nodup := by decide
  have hkeys' : (Entries.keys [("tags", .array [.null, .absent .string]),
      ("x", Value.float (.zero true))]).Nodup := by decide
  have hleft : outlined.WellFormed := by
    simp [outlined, WellFormed, WellFormedItems, WellFormedEntries, hkeys]
  have hright : outlined'.WellFormed := by
    simp [outlined', WellFormed, WellFormedItems, WellFormedEntries, hkeys']
  have hequal : outlined.equal outlined' = true := by decide +kernel
  have hself : outlined.equal outlined.copy = true := by decide +kernel
  obtain ⟨hsymm, -, hshuffled, hcopy⟩ :=
    equal_partialEquivalence hleft.distinctKeys hright.distinctKeys
  refine ⟨hequal, hsymm hequal, ?_, hcopy.1 hself⟩
  intro a b ha hb
  rw [hshuffled a b ha hb, hequal]

end Value

end Reckon
