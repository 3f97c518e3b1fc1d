import Dil.Proofs.Heap.Bisimilarity
import Dil.Proofs.Number.Rounding
import Dil.Value.Operation

/-!
Equality and order of values. Integers are compared exactly, and an integer and a float as floats.
Rounding keeps the order, so that the comparisons fit together, but it can make two integers equal
to one float.
-/

namespace Dil.Value

open Binary64 (exactLimit roundedKey)

variable {a b c l r v : Value} {o : Ordering}

theorem int64_magnitude (n : Int64) : n.toInt.natAbs ≤ Binary64.signUnit := by
  have lower := Int64.minValue_le_toInt n
  have upper := Int64.toInt_le n
  change -(Binary64.signUnit : Int) ≤ _ at lower
  change _ ≤ (Binary64.signUnit : Int) - 1 at upper
  omega

theorem orderKey_rounded (n : Int64) :
    Binary64.orderKey? (Binary64.ofInt n.toInt) = some (roundedKey n.toInt) :=
  Binary64.orderKey_ofInt (int64_magnitude n)

theorem same_refl (v : Value) : v.same v = true := by
  cases v <;> simp [same]

theorem same_comm (l r : Value) : l.same r = r.same l := by
  cases l <;> cases r <;> simp [same, Bool.beq_comm]

theorem same_iff :
    a.same b = true ↔ a = b ∨ (a.asInt? = none ∨ b.asInt? = none) ∧
      ∃ x y, a.asFloat? = some x ∧ b.asFloat? = some y
        ∧ Binary64.orderKey? x = Binary64.orderKey? y := by
  cases a <;> cases b <;> simp [same, asFloat?, asInt?]
  exact fun equal => equal ▸ rfl

theorem int_or_not (v : Value) : v.asInt? = none ∨ ∃ n, v = .int n := by
  cases v with
  | int n => exact Or.inr ⟨n, rfl⟩
  | _ => exact Or.inl rfl

theorem float_of_asFloat {x : Float} (other : v.asInt? = none) (number : v.asFloat? = some x) :
    v = .float x := by
  cases v with
  | int => cases other
  | float =>
      cases number
      rfl
  | _ => cases number

/-- A float stands between two integers that are not floats: both are rounded to it. -/
def Blurred (a b c : Value) : Prop :=
  ∃ m n x, a = .int m ∧ b = .float x ∧ c = .int n ∧ m ≠ n
    ∧ exactLimit ≤ m.toInt.natAbs ∧ exactLimit ≤ n.toInt.natAbs

theorem Blurred.differs (blurred : Blurred a b c) : a.same c = false := by
  obtain ⟨m, n, x, rfl, rfl, rfl, different, -, -⟩ := blurred
  simpa [same] using different

theorem same_trans (first : a.same b = true) (second : b.same c = true) :
    a.same c = true ∨ Blurred a b c := by
  obtain rfl | ⟨mixed, x, y, left, middle, equal⟩ := same_iff.mp first
  · exact Or.inl second
  obtain rfl | ⟨mixed', y', z, middle', right, equal'⟩ := same_iff.mp second
  · exact Or.inl first
  obtain rfl : y = y' := Option.some.inj (middle.symm.trans middle')
  have outer := equal.trans equal'
  obtain left' | ⟨m, rfl⟩ := int_or_not a
  · exact Or.inl (same_iff.mpr (Or.inr ⟨Or.inl left', x, z, left, right, outer⟩))
  obtain right' | ⟨n, rfl⟩ := int_or_not c
  · exact Or.inl (same_iff.mpr (Or.inr ⟨Or.inr right', x, z, left, right, outer⟩))
  obtain rfl := float_of_asFloat (mixed.resolve_left nofun) middle
  cases left
  cases right
  rw [orderKey_rounded, orderKey_rounded] at outer
  have rounded : roundedKey m.toInt = roundedKey n.toInt := Option.some.inj outer
  by_cases agree : m = n
  · exact Or.inl (agree ▸ same_refl _)
  have differ : m.toInt ≠ n.toInt := fun equal => agree (Int64.toInt_inj.mp equal)
  have large : ∀ {i j : Int}, roundedKey i = roundedKey j → i ≠ j → exactLimit ≤ i.natAbs := by
    intro i j equal apart
    exact Nat.le_of_not_lt fun small => apart (Binary64.roundedKey_inj equal (Or.inl small))
  exact Or.inr ⟨m, n, y, rfl, rfl, rfl, agree, large rounded differ,
    large rounded.symm differ.symm⟩

/-- Equality is reflexive and symmetric, and it is transitive except around a float that two
integers are rounded to. -/
theorem equality_blurred_only_by_rounding :
    (∀ v : Value, v.same v = true) ∧ (∀ l r : Value, l.same r = r.same l)
      ∧ (∀ a b c : Value, a.same b = true → b.same c = true →
          (a.same c = false ↔ Blurred a b c))
      ∧ (∀ l r : Value, operate .eq l r = .ok (.bool (l.same r)))
      ∧ ∀ (h : Heap) (l r : Value), l.Scalar ∨ r.Scalar → h.deepEqual l r = l.same r := by
  refine ⟨same_refl, same_comm, ?_, fun _ _ => rfl, fun h _ _ plain => ?_⟩
  · intro a b c first second
    refine ⟨fun different => ?_, Blurred.differs⟩
    obtain equal | blurred := same_trans first second
    · rw [equal] at different
      cases different
    · exact blurred
  · exact Heap.equalWithin_plain _ plain

theorem exact_limit_blurred :
    (Value.int 9007199254740993).same (.int 9007199254740992) = false
      ∧ Blurred (.int 9007199254740993) (.float (Float.ofBits 0x4340000000000000))
          (.int 9007199254740992) := by
  have blurred :=
    (equality_blurred_only_by_rounding.2.2.1 (.int 9007199254740993)
      (.float (Float.ofBits 0x4340000000000000)) (.int 9007199254740992)
      (by decide) (by decide)).mp (by decide)
  exact ⟨by decide, blurred⟩

/-- The first integer that is not a float equals the float below it, and so does that integer. -/
theorem neighbours_equal_one_float :
    (Value.int 9007199254740993).same (.float (Float.ofBits 0x4340000000000000)) = true
      ∧ (Value.float (Float.ofBits 0x4340000000000000)).same (.int 9007199254740992) = true
      ∧ (Value.int 9007199254740993).same (.int 9007199254740992) = false := by
  decide

/-- How two values are ordered: integers by their values, texts by code points, and other numbers
as floats. -/
inductive Ordered : Value → Value → Ordering → Prop
  | ints (m n : Int64) {o : Ordering} (order : compare m.toInt n.toInt = o) :
      Ordered (.int m) (.int n) o
  | texts (s t : String) {o : Ordering} (order : compare s t = o) : Ordered (.str s) (.str t) o
  | numbers {l r : Value} {i j : Int} {o : Ordering} (mixed : l.asInt? = none ∨ r.asInt? = none)
      (left : l.orderKey? = some i) (right : r.orderKey? = some j) (order : compare i j = o) :
      Ordered l r o

theorem order_of_mixed (mixed : l.asInt? = none ∨ r.asInt? = none)
    (texts : ∀ s t, ¬ (l = .str s ∧ r = .str t)) :
    order? l r = l.orderKey?.bind fun i => r.orderKey?.map fun j => compare i j := by
  unfold order?
  split
  · rcases mixed with none | none <;> cases none
  · exact absurd ⟨rfl, rfl⟩ (texts _ _)
  · rfl

theorem order_eq_some_iff : order? l r = some o ↔ Ordered l r o := by
  constructor
  · intro known
    unfold order? at known
    split at known
    · exact .ints _ _ (Option.some.inj known)
    · exact .texts _ _ (Option.some.inj known)
    · rename_i other _
      obtain ⟨i, left, rest⟩ := Option.bind_eq_some_iff.mp known
      obtain ⟨j, right, order⟩ := Option.map_eq_some_iff.mp rest
      refine .numbers ?_ left right order
      obtain none | ⟨m, rfl⟩ := int_or_not l
      · exact Or.inl none
      obtain none | ⟨n, rfl⟩ := int_or_not r
      · exact Or.inr none
      exact (other m n rfl rfl).elim
  · intro ordered
    cases ordered with
    | ints m n order => exact congrArg some order
    | texts s t order => exact congrArg some order
    | numbers mixed left right order =>
        have texts : ∀ s t, ¬ (l = .str s ∧ r = .str t) := by
          rintro s t ⟨rfl, -⟩
          cases left
        rw [order_of_mixed mixed texts, left, right]
        exact congrArg some order

theorem Ordered.swap (ordered : Ordered l r o) : Ordered r l o.swap := by
  cases ordered with
  | ints m n order => exact .ints n m (order ▸ Std.OrientedCmp.eq_swap)
  | texts s t order => exact .texts t s (order ▸ Std.OrientedCmp.eq_swap)
  | numbers mixed left right order =>
      exact .numbers mixed.symm right left (order ▸ Std.OrientedCmp.eq_swap)

theorem same_of_keys {i j : Int} (mixed : l.asInt? = none ∨ r.asInt? = none)
    (left : l.orderKey? = some i) (right : r.orderKey? = some j) : l.same r = true ↔ i = j := by
  obtain ⟨x, leftFloat, leftKey⟩ := Option.bind_eq_some_iff.mp left
  obtain ⟨y, rightFloat, rightKey⟩ := Option.bind_eq_some_iff.mp right
  rw [same_iff]
  constructor
  · rintro (rfl | ⟨-, x', y', leftFloat', rightFloat', equal⟩)
    · exact Option.some.inj (left.symm.trans right)
    · obtain rfl : x = x' := Option.some.inj (leftFloat.symm.trans leftFloat')
      obtain rfl : y = y' := Option.some.inj (rightFloat.symm.trans rightFloat')
      exact Option.some.inj (leftKey.symm.trans (equal.trans rightKey))
  · rintro rfl
    exact Or.inr ⟨mixed, x, y, leftFloat, rightFloat, leftKey.trans rightKey.symm⟩

/-- Ordered values are equal exactly when neither is before the other. -/
theorem Ordered.same (ordered : Ordered l r o) : l.same r = o.isEq := by
  rw [Bool.eq_iff_iff, Ordering.isEq_iff_eq_eq]
  cases ordered with
  | ints m n order =>
      rw [← order, Std.compare_eq_iff_eq, Int64.toInt_inj]
      simp [Value.same]
  | texts s t order =>
      rw [← order, Std.compare_eq_iff_eq]
      simp [Value.same]
  | numbers mixed left right order =>
      rw [← order, Std.compare_eq_iff_eq]
      exact same_of_keys mixed left right

theorem orderKey_int (n : Int64) : (Value.int n).orderKey? = some (roundedKey n.toInt) :=
  orderKey_rounded n

theorem Ordered.key_le {i j : Int} (ordered : Ordered l r .lt) (left : l.orderKey? = some i)
    (right : r.orderKey? = some j) : i ≤ j := by
  cases ordered with
  | ints m n order =>
      rw [orderKey_int] at left right
      obtain rfl := Option.some.inj left
      obtain rfl := Option.some.inj right
      exact Binary64.roundedKey_mono (Int.le_of_lt (Int.compare_eq_lt.mp order))
  | texts s t order => cases left
  | numbers mixed left' right' order =>
      obtain rfl := Option.some.inj (left.symm.trans left')
      obtain rfl := Option.some.inj (right.symm.trans right')
      exact Int.le_of_lt (Int.compare_eq_lt.mp order)

theorem Ordered.of_key_lt {i j : Int} (left : l.orderKey? = some i) (right : r.orderKey? = some j)
    (less : i < j) : Ordered l r .lt := by
  obtain none | ⟨m, rfl⟩ := int_or_not l
  · exact .numbers (Or.inl none) left right (Int.compare_eq_lt.mpr less)
  obtain none | ⟨n, rfl⟩ := int_or_not r
  · exact .numbers (Or.inr none) left right (Int.compare_eq_lt.mpr less)
  rw [orderKey_int] at left right
  obtain rfl := Option.some.inj left
  obtain rfl := Option.some.inj right
  refine .ints m n (Int.compare_eq_lt.mpr (Int.lt_of_not_ge fun below => ?_))
  have := Binary64.roundedKey_mono below
  omega

/-- Between integers and floats a chain is strict in one of its steps as floats, and rounding keeps
the other. -/
theorem Ordered.trans (first : Ordered a b .lt) (second : Ordered b c .lt) : Ordered a c .lt := by
  cases first with
  | ints m n order =>
      cases second with
      | ints _ k order' => exact .ints m k (Std.TransCmp.lt_trans order order')
      | numbers mixed left right order' =>
          have below := (Ordered.ints m n order).key_le (orderKey_int m) left
          have less := Int.compare_eq_lt.mp order'
          exact .of_key_lt (orderKey_int m) right (by omega)
  | texts s t order =>
      cases second with
      | texts _ u order' => exact .texts s u (Std.TransCmp.lt_trans order order')
      | numbers mixed left => cases left
  | numbers mixed left right order =>
      have less := Int.compare_eq_lt.mp order
      obtain ⟨k, outer⟩ : ∃ k, c.orderKey? = some k := by
        cases second with
        | ints _ n => exact ⟨_, orderKey_int n⟩
        | texts => cases right
        | numbers _ _ right' => exact ⟨_, right'⟩
      have below := second.key_le right outer
      exact .of_key_lt left outer (by omega)

structure Compared (l r : Value) (less equal greater : Bool) : Prop where
  one : [less, equal, greater].count true = 1
  lt : operate .lt l r = .ok (.bool less)
  eq : operate .eq l r = .ok (.bool equal)
  gt : operate .gt l r = .ok (.bool greater)
  le : operate .le l r = .ok (.bool (less || equal))
  ge : operate .ge l r = .ok (.bool (greater || equal))
  ne : operate .ne l r = .ok (.bool !equal)

theorem Ordered.compared (ordered : Ordered l r o) : Compared l r o.isLT o.isEq o.isGT := by
  have order := order_eq_some_iff.mpr ordered
  have equal := ordered.same
  cases o <;> constructor <;> simp [operate, comparison, order, equal]

theorem order_none_swap (none : order? l r = none) : order? r l = .none := by
  cases other : order? r l with
  | none => rfl
  | some o =>
      rw [order_eq_some_iff.mpr (order_eq_some_iff.mp other).swap] at none
      cases none

theorem comparison_unordered (none : order? l r = none) :
    ∀ op ∈ [BinaryOp.lt, .le, .gt, .ge], operate op l r = .error (unsupported op l r) := by
  simp [operate, comparison, none]

theorem lt_iff_ordered : operate .lt l r = .ok (.bool true) ↔ Ordered l r .lt := by
  constructor
  · intro less
    cases known : order? l r with
    | none => simp [operate, comparison, known] at less
    | some o =>
        have yes : o.isLT = true := by simpa [operate, comparison, known] using less
        obtain rfl := Ordering.isLT_iff_eq_lt.mp yes
        exact order_eq_some_iff.mp known
  · exact fun ordered => ordered.compared.lt

/-- The comparisons of two values are all refused, both ways round, or all answered as one order
answers them, which is the same order the other way round; and what is before a value is before
all that the value is before. -/
theorem comparisons_fit_together (l r : Value) :
    ((∀ op ∈ [BinaryOp.lt, .le, .gt, .ge],
          operate op l r = .error (unsupported op l r) ∧ operate op r l = .error (unsupported op r l))
        ∨ ∃ less equal greater, Compared l r less equal greater ∧ Compared r l greater equal less)
      ∧ ∀ m, operate .lt l m = .ok (.bool true) → operate .lt m r = .ok (.bool true) →
          operate .lt l r = .ok (.bool true) := by
  refine ⟨?_, fun m first second => ?_⟩
  · cases known : order? l r with
    | none =>
        refine Or.inl fun op member => ⟨comparison_unordered known op member, ?_⟩
        exact comparison_unordered (order_none_swap known) op member
    | some o =>
        have ordered := order_eq_some_iff.mp known
        have swapped := ordered.swap.compared
        refine Or.inr ⟨o.isLT, o.isEq, o.isGT, ordered.compared, ?_⟩
        cases o <;> exact swapped
  · exact lt_iff_ordered.mpr ((lt_iff_ordered.mp first).trans (lt_iff_ordered.mp second))

theorem rounded_chain_ordered :
    operate .lt (.int 9007199254740992) (.int 9007199254740995) = .ok (.bool true) :=
  (comparisons_fit_together (.int 9007199254740992) (.int 9007199254740995)).2
    (.float (Float.ofBits 0x4340000000000001)) rfl rfl

end Dil.Value
