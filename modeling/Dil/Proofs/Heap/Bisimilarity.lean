import Dil.Proofs.Heap.Copies
import Dil.Proofs.Session.Runs
import Mathlib.Data.List.Perm.Subperm
import Mathlib.Data.List.ProdSigma

/-!
Equality by content is bisimilarity. The comparison takes a pair of cells as equal while it compares
their parts and forgets it afterwards; such assumptions are discharged where the pair is left, so
that what is found equal is related by a bisimulation. It ends because the pairs under comparison
are distinct.
-/

namespace Dil.Heap

inductive Matches (h : Heap) (R : Value → Value → Prop) : Value → Value → Prop where
  | scalar {v w : Value} (left : v.Scalar) (right : w.Scalar) (same : v.same w = true) :
      Matches h R v w
  | composite {r q : Ref} {c d : Cell} (found : h.cell? r = some c) (other : h.cell? q = some d)
      (label : c.label = d.label)
      (parts : List.Forall₂ (fun p s => p.1 = s.1 ∧ R p.2 s.2) c.parts d.parts) :
      Matches h R (.ref r) (.ref q)

/-- Related values look alike, and so do their parts, and the parts of these. -/
def Bisimulation (h : Heap) (R : Value → Value → Prop) : Prop := ∀ v w, R v w → h.Matches R v w

/-- What comes of comparing two values while some pairs of cells are compared already, one rule for
each way in which a comparison ends. Parts are compared in their order, up to the first that differ;
nothing limits how deep comparisons nest. -/
inductive Compares (h : Heap) : List (Ref × Ref) → Value → Value → Bool → Prop where
  | plain {visiting : List (Ref × Ref)} {v w : Value} (plain : v.Scalar ∨ w.Scalar) :
      Compares h visiting v w (v.same w)
  | known {visiting : List (Ref × Ref)} {a b : Ref} (known : a = b ∨ (a, b) ∈ visiting) :
      Compares h visiting (.ref a) (.ref b) true
  | unlike {visiting : List (Ref × Ref)} {a b : Ref} {c d : Cell}
      (new : ¬ (a = b ∨ (a, b) ∈ visiting)) (found : h.cell? a = some c)
      (other : h.cell? b = some d)
      (unlike : ¬ (c.label = d.label ∧ c.parts.length = d.parts.length)) :
      Compares h visiting (.ref a) (.ref b) false
  | alike {visiting : List (Ref × Ref)} {a b : Ref} {c d : Cell}
      (new : ¬ (a = b ∨ (a, b) ∈ visiting)) (found : h.cell? a = some c)
      (other : h.cell? b = some d) (label : c.label = d.label)
      (length : c.parts.length = d.parts.length)
      (names : ∀ p ∈ c.parts.zip d.parts, p.1.1 = p.2.1)
      (parts : ∀ p ∈ c.parts.zip d.parts, Compares h ((a, b) :: visiting) p.1.2 p.2.2 true) :
      Compares h visiting (.ref a) (.ref b) true
  | misnamed {visiting : List (Ref × Ref)} {a b : Ref} {c d : Cell}
      {front back : List ((Option String × Value) × Option String × Value)}
      {p : (Option String × Value) × Option String × Value}
      (new : ¬ (a = b ∨ (a, b) ∈ visiting)) (found : h.cell? a = some c)
      (other : h.cell? b = some d) (label : c.label = d.label)
      (length : c.parts.length = d.parts.length) (split : c.parts.zip d.parts = front ++ p :: back)
      (names : ∀ q ∈ front, q.1.1 = q.2.1)
      (parts : ∀ q ∈ front, Compares h ((a, b) :: visiting) q.1.2 q.2.2 true)
      (misnamed : p.1.1 ≠ p.2.1) : Compares h visiting (.ref a) (.ref b) false
  | differ {visiting : List (Ref × Ref)} {a b : Ref} {c d : Cell}
      {front back : List ((Option String × Value) × Option String × Value)}
      {p : (Option String × Value) × Option String × Value}
      (new : ¬ (a = b ∨ (a, b) ∈ visiting)) (found : h.cell? a = some c)
      (other : h.cell? b = some d) (label : c.label = d.label)
      (length : c.parts.length = d.parts.length) (split : c.parts.zip d.parts = front ++ p :: back)
      (names : ∀ q ∈ front, q.1.1 = q.2.1)
      (parts : ∀ q ∈ front, Compares h ((a, b) :: visiting) q.1.2 q.2.2 true)
      (name : p.1.1 = p.2.1) (differ : Compares h ((a, b) :: visiting) p.1.2 p.2.2 false) :
      Compares h visiting (.ref a) (.ref b) false

variable {h : Heap} {R S : Value → Value → Prop} {v w : Value} {a b : Ref}
  {visiting : List (Ref × Ref)} {answer : Bool}

theorem Matches.mono (matched : h.Matches R v w) (weaker : ∀ x y, R x y → S x y) :
    h.Matches S v w := by
  cases matched with
  | scalar left right same => exact .scalar left right same
  | composite found other label parts =>
      exact .composite found other label
        (parts.imp fun p q related => ⟨related.1, weaker p.2 q.2 related.2⟩)

theorem matches_of_zip {c d : Cell} (found : h.cell? a = some c) (other : h.cell? b = some d)
    (label : c.label = d.label) (length : c.parts.length = d.parts.length)
    (names : ∀ p ∈ c.parts.zip d.parts, p.1.1 = p.2.1)
    (parts : ∀ p ∈ c.parts.zip d.parts, R p.1.2 p.2.2) : h.Matches R (.ref a) (.ref b) :=
  .composite found other label
    (List.forall₂_iff_zip.mpr ⟨length, fun {p q} member => ⟨names (p, q) member, parts (p, q) member⟩⟩)

theorem part_values {c d : Cell} {p : (Option String × Value) × Option String × Value}
    (member : p ∈ c.parts.zip d.parts) : p.1.2 ∈ c.values ∧ p.2.2 ∈ d.values := by
  have sides := List.of_mem_zip (a := p.1) (b := p.2) member
  exact ⟨List.mem_map.mpr ⟨p.1, sides.1, rfl⟩, List.mem_map.mpr ⟨p.2, sides.2, rfl⟩⟩

theorem same_scalars (same : v.same w = true) (plain : v.Scalar ∨ w.Scalar) :
    v.Scalar ∧ w.Scalar := by
  rcases plain with scalar | scalar
  · refine ⟨scalar, ?_⟩
    rintro r rfl
    cases v with
    | ref q => exact scalar q rfl
    | _ => cases same
  · refine ⟨?_, scalar⟩
    rintro r rfl
    cases w with
    | ref q => exact scalar q rfl
    | _ => cases same

/-- Related by a bisimulation, but for the given pairs of cells, which are taken as equal. -/
def SimilarUpTo (h : Heap) (assumed : List (Ref × Ref)) (v w : Value) : Prop :=
  ∃ R : Value → Value → Prop, R v w ∧ ∀ x y, R x y →
    (∃ a b, x = .ref a ∧ y = .ref b ∧ (a, b) ∈ assumed) ∨ h.Matches R x y

theorem similarUpTo_matches (similar : h.SimilarUpTo visiting v w) :
    (∃ a b, v = .ref a ∧ w = .ref b ∧ (a, b) ∈ visiting) ∨ h.Matches (h.SimilarUpTo visiting) v w := by
  obtain ⟨R, related, closed⟩ := similar
  rcases closed v w related with assumed | matched
  · exact .inl assumed
  · exact .inr (matched.mono fun x y inside => ⟨R, inside, closed⟩)

theorem similarUpTo_of_matches (matched : h.Matches (h.SimilarUpTo visiting) v w) :
    h.SimilarUpTo visiting v w := by
  refine ⟨fun x y => h.SimilarUpTo visiting x y ∨ h.Matches (h.SimilarUpTo visiting) x y,
    .inr matched, ?_⟩
  rintro x y (similar | matched)
  · exact (similarUpTo_matches similar).imp_right fun matched => matched.mono fun _ _ => .inl
  · exact .inr (matched.mono fun _ _ => .inl)

/-- Cells whose parts are alike if the cells are, are alike: where a pair is left, what was assumed
of it inside its parts has been shown. -/
theorem similarUpTo_discharge
    (matched : h.Matches (h.SimilarUpTo ((a, b) :: visiting)) (.ref a) (.ref b)) :
    h.SimilarUpTo visiting (.ref a) (.ref b) := by
  refine ⟨h.SimilarUpTo ((a, b) :: visiting), similarUpTo_of_matches matched, ?_⟩
  intro x y similar
  rcases similarUpTo_matches similar with ⟨p, q, rfl, rfl, member⟩ | matched'
  · rcases List.mem_cons.mp member with here | there
    · cases here
      exact .inr matched
    · exact .inl ⟨p, q, rfl, rfl, there⟩
  · exact .inr matched'

theorem similarUpTo_self (closed : h.Closed) (held : h.Holds v) : h.SimilarUpTo visiting v v := by
  refine ⟨fun x y => x = y ∧ h.Holds x, ⟨rfl, held⟩, ?_⟩
  rintro x _ ⟨rfl, inside⟩
  refine .inr ?_
  cases x with
  | ref r =>
      obtain ⟨c, found⟩ := (h.inRange_iff r).mp ((h.holds_ref r).mp inside)
      refine .composite found found rfl (List.forall₂_same.mpr fun p member => ⟨rfl, rfl, ?_⟩)
      exact closed r c found p.2 (List.mem_map.mpr ⟨p, member, rfl⟩)
  | _ => exact .scalar (fun _ => Value.noConfusion) (fun _ => Value.noConfusion)
          (same_self fun _ => Value.noConfusion)

theorem Compares.similar (compares : h.Compares visiting v w answer) (closed : h.Closed)
    (left : h.Holds v) (right : h.Holds w) (equal : answer = true) :
    h.SimilarUpTo visiting v w := by
  induction compares with
  | plain plain =>
      obtain ⟨scalarV, scalarW⟩ := same_scalars equal plain
      exact similarUpTo_of_matches (.scalar scalarV scalarW equal)
  | known known =>
      rcases known with rfl | member
      · exact similarUpTo_self closed left
      · exact ⟨fun x y => x = .ref _ ∧ y = .ref _, ⟨rfl, rfl⟩,
          fun x y pair => .inl ⟨_, _, pair.1, pair.2, member⟩⟩
  | alike _ found other label length names _ ih =>
      refine similarUpTo_discharge (matches_of_zip found other label length names ?_)
      intro p member
      obtain ⟨leftPart, rightPart⟩ := part_values member
      exact ih p member (closed _ _ found _ leftPart) (closed _ _ other _ rightPart) rfl
  | unlike | misnamed | differ => cases equal

theorem Matches.cells {c d : Cell} (matched : h.Matches R (.ref a) (.ref b))
    (found : h.cell? a = some c) (other : h.cell? b = some d) :
    c.label = d.label ∧ c.parts.length = d.parts.length ∧
      ∀ p ∈ c.parts.zip d.parts, p.1.1 = p.2.1 ∧ R p.1.2 p.2.2 := by
  cases matched with
  | scalar left => exact absurd rfl (left a)
  | composite found' other' label parts =>
      cases found.symm.trans found'
      cases other.symm.trans other'
      obtain ⟨length, each⟩ := List.forall₂_iff_zip.mp parts
      exact ⟨label, length, fun p member => each member⟩

theorem Compares.complete (compares : h.Compares visiting v w answer) (bisimulation : h.Bisimulation R)
    (related : R v w) : answer = true := by
  induction compares with
  | plain plain =>
      cases bisimulation _ _ related with
      | scalar _ _ same => exact same
      | composite => rcases plain with scalar | scalar <;> exact absurd rfl (scalar _)
  | known | alike => rfl
  | unlike _ found other unlike =>
      obtain ⟨label, length, _⟩ := (bisimulation _ _ related).cells found other
      exact absurd ⟨label, length⟩ unlike
  | misnamed _ found other _ _ split _ _ misnamed =>
      obtain ⟨_, _, each⟩ := (bisimulation _ _ related).cells found other
      exact absurd (each _ (split ▸ List.mem_append_right _ List.mem_cons_self)).1 misnamed
  | differ _ found other _ _ split _ _ _ _ _ ih =>
      obtain ⟨_, _, each⟩ := (bisimulation _ _ related).cells found other
      exact ih (each _ (split ▸ List.mem_append_right _ List.mem_cons_self)).2

def refs (h : Heap) : List Ref :=
  (List.range h.arrays.size).map .array ++ (List.range h.maps.size).map .map
    ++ (List.range h.objects.size).map .object

theorem mem_refs {r : Ref} (inside : h.InRange r) : r ∈ h.refs := by
  cases r <;> simpa [refs, InRange] using inside

theorem length_refs (h : Heap) : h.refs.length = h.size := by
  simp [refs, Heap.size, Nat.add_assoc]

structure Visits (h : Heap) (visiting : List (Ref × Ref)) : Prop where
  distinct : visiting.Nodup
  inside : ∀ p ∈ visiting, h.InRange p.1 ∧ h.InRange p.2

theorem Visits.cons (visits : h.Visits visiting) (fresh : (a, b) ∉ visiting) (left : h.InRange a)
    (right : h.InRange b) : h.Visits ((a, b) :: visiting) :=
  ⟨List.nodup_cons.mpr ⟨fresh, visits.distinct⟩,
    List.forall_mem_cons.mpr ⟨⟨left, right⟩, visits.inside⟩⟩

theorem Visits.length_le (visits : h.Visits visiting) : visiting.length ≤ h.size * h.size := by
  have pairs : visiting ⊆ h.refs ×ˢ h.refs := by
    intro p member
    obtain ⟨left, right⟩ := visits.inside p member
    exact List.mem_product.mpr ⟨mem_refs left, mem_refs right⟩
  have shorter := (List.subperm_of_subset visits.distinct pairs).length_le
  rwa [List.length_product, length_refs] at shorter

theorem compares_parts {c d : Cell}
    {answers : (Option String × Value) × Option String × Value → Bool}
    (new : ¬ (a = b ∨ (a, b) ∈ visiting)) (found : h.cell? a = some c) (other : h.cell? b = some d)
    (label : c.label = d.label) (length : c.parts.length = d.parts.length)
    (each : ∀ p ∈ c.parts.zip d.parts, h.Compares ((a, b) :: visiting) p.1.2 p.2.2 (answers p)) :
    h.Compares visiting (.ref a) (.ref b)
      ((c.parts.zip d.parts).all fun p => p.1.1 == p.2.1 && answers p) := by
  cases found? : (c.parts.zip d.parts).find? fun p => !(p.1.1 == p.2.1 && answers p) with
  | none =>
      have good : ∀ p ∈ c.parts.zip d.parts, (p.1.1 == p.2.1 && answers p) = true := by
        simpa using List.find?_eq_none.mp found?
      rw [List.all_eq_true.mpr good]
      simp only [Bool.and_eq_true, beq_iff_eq] at good
      refine .alike new found other label length (fun p member => (good p member).1) ?_
      intro p member
      exact (good p member).2 ▸ each p member
  | some p =>
      obtain ⟨bad, front, back, split, good⟩ := List.find?_eq_some_iff_append.mp found?
      have inside : p ∈ c.parts.zip d.parts := split ▸ List.mem_append_right _ List.mem_cons_self
      have fails : ((c.parts.zip d.parts).all fun p => p.1.1 == p.2.1 && answers p) = false :=
        List.all_eq_false.mpr ⟨p, inside, (Bool.not_eq_true' _).mp bad ▸ Bool.false_ne_true⟩
      rw [fails]
      simp only [Bool.not_not, Bool.and_eq_true, beq_iff_eq] at good
      have names : ∀ q ∈ front, q.1.1 = q.2.1 := fun q member => (good q member).1
      have parts : ∀ q ∈ front, h.Compares ((a, b) :: visiting) q.1.2 q.2.2 true := by
        intro q member
        exact (good q member).2 ▸ each q (split ▸ List.mem_append_left _ member)
      by_cases name : p.1.1 = p.2.1
      · have differs : answers p = false := by
          rwa [name, BEq.rfl, Bool.true_and, Bool.not_eq_eq_eq_not, Bool.not_true] at bad
        exact .differ new found other label length split names parts name (differs ▸ each p inside)
      · exact .misnamed new found other label length split names parts name

theorem equalWithin_plain (depth : Nat) (plain : v.Scalar ∨ w.Scalar) :
    h.equalWithin depth visiting v w = v.same w := by
  cases v with
  | ref a =>
      cases w with
      | ref b => rcases plain with scalar | scalar <;> exact absurd rfl (scalar _)
      | _ => rw [equalWithin.eq_def]
  | _ => rw [equalWithin.eq_def]

theorem equalWithin_known (depth : Nat) (known : a = b ∨ (a, b) ∈ visiting) :
    h.equalWithin depth visiting (.ref a) (.ref b) = true := by
  unfold equalWithin
  rw [if_pos (by simpa using known)]

theorem equalWithin_cells (depth : Nat) (new : ¬ (a = b ∨ (a, b) ∈ visiting)) {c d : Cell}
    (found : h.cell? a = some c) (other : h.cell? b = some d) :
    h.equalWithin (depth + 1) visiting (.ref a) (.ref b) =
      (c.label == d.label && c.parts.length == d.parts.length &&
        (c.parts.zip d.parts).all fun p =>
          p.1.1 == p.2.1 && h.equalWithin depth ((a, b) :: visiting) p.1.2 p.2.2) := by
  rw [equalWithin.eq_def]
  simp only [found, other]
  rw [if_neg (by simpa using new)]

theorem plain_or_refs (v w : Value) : (v.Scalar ∨ w.Scalar) ∨ ∃ a b, v = .ref a ∧ w = .ref b := by
  cases v with
  | ref a =>
      cases w with
      | ref b => exact .inr ⟨a, b, rfl, rfl⟩
      | _ => exact .inl (.inr fun _ => Value.noConfusion)
  | _ => exact .inl (.inl fun _ => Value.noConfusion)

/-- With room for all pairs that are not under comparison yet, the limit on nesting is not met. -/
theorem compares_equalWithin (closed : h.Closed) {depth : Nat} (visits : h.Visits visiting)
    (room : h.size * h.size ≤ depth + visiting.length) (left : h.Holds v) (right : h.Holds w) :
    h.Compares visiting v w (h.equalWithin depth visiting v w) := by
  induction depth generalizing visiting v w with
  | zero =>
      rcases plain_or_refs v w with plain | ⟨a, b, rfl, rfl⟩
      · exact equalWithin_plain 0 plain ▸ .plain plain
      · by_cases known : a = b ∨ (a, b) ∈ visiting
        · exact equalWithin_known 0 known ▸ .known known
        -- One more pair than there are pairs of cells cannot be under comparison.
        · rw [not_or] at known
          have more := (visits.cons known.2 ((h.holds_ref a).mp left)
            ((h.holds_ref b).mp right)).length_le
          rw [List.length_cons] at more
          omega
  | succ n ih =>
      rcases plain_or_refs v w with plain | ⟨a, b, rfl, rfl⟩
      · exact equalWithin_plain (n + 1) plain ▸ .plain plain
      · by_cases known : a = b ∨ (a, b) ∈ visiting
        · exact equalWithin_known (n + 1) known ▸ .known known
        · have insideA := (h.holds_ref a).mp left
          have insideB := (h.holds_ref b).mp right
          obtain ⟨c, found⟩ := (h.inRange_iff a).mp insideA
          obtain ⟨d, other⟩ := (h.inRange_iff b).mp insideB
          rw [equalWithin_cells n known found other]
          by_cases same : c.label = d.label ∧ c.parts.length = d.parts.length
          · simp only [same.1, same.2, BEq.rfl, Bool.true_and]
            refine compares_parts known found other same.1 same.2 fun p member => ?_
            obtain ⟨leftPart, rightPart⟩ := part_values member
            refine ih (visits.cons (fun member => known (.inr member)) insideA insideB) ?_
              (closed a c found _ leftPart) (closed b d other _ rightPart)
            rw [List.length_cons]
            omega
          · have unlike : (c.label == d.label && c.parts.length == d.parts.length) = false := by
              simpa using same
            rw [unlike, Bool.false_and]
            exact .unlike known found other same

/-- In a closed heap, with cycles or without, the comparison of two values ends, with one answer, and
this is that of `deepEqual`; the answer is yes exactly if a bisimulation relates the values. -/
theorem deepEqual_iff_bisimilar (closed : h.Closed) (left : h.Holds v) (right : h.Holds w) :
    (∀ answer, h.Compares [] v w answer ↔ h.deepEqual v w = answer) ∧
    (h.deepEqual v w = true ↔ ∃ R, h.Bisimulation R ∧ R v w) := by
  have start : h.Visits [] := ⟨List.nodup_nil, nofun⟩
  have ends : h.Compares [] v w (h.deepEqual v w) :=
    compares_equalWithin closed start (Nat.le_refl _) left right
  have decided : ∀ answer, h.Compares [] v w answer →
      (answer = true ↔ ∃ R, h.Bisimulation R ∧ R v w) := by
    intro answer compares
    constructor
    · intro equal
      -- Nothing is under comparison at the start, so that all related pairs are matched.
      obtain ⟨R, related, progress⟩ := compares.similar closed left right equal
      refine ⟨R, fun x y inside => ?_, related⟩
      rcases progress x y inside with ⟨_, _, _, _, none⟩ | matched
      · cases none
      · exact matched
    · rintro ⟨R, bisimulation, related⟩
      exact compares.complete bisimulation related
  refine ⟨fun answer => ⟨fun compares => ?_, fun same => same ▸ ends⟩, decided _ ends⟩
  rw [Bool.eq_iff_iff, decided _ ends, decided _ compares]

def mutualArrays : Session :=
  (Session.new.run 1 (.accepting 2)
    ⟨[.bind ⟨0, 20⟩ ⟨"a", ⟨4, 5⟩⟩ (.array ⟨8, 19⟩ [.null ⟨9, 13⟩, .str ⟨15, 18⟩ "x"]),
      .bind ⟨21, 38⟩ ⟨"b", ⟨25, 26⟩⟩ (.array ⟨29, 37⟩ [.var ⟨30, 31⟩ "a", .str ⟨33, 36⟩ "x"]),
      .assign ⟨39, 48⟩ ⟨"a", ⟨39, 40⟩⟩ [.index (.int ⟨41, 42⟩ 0)] (.var ⟨46, 47⟩ "b")],
      ⟨0, 48⟩⟩).session

theorem mutual_arrays_bisimilar :
    let h := mutualArrays.heap
    h.cell? (.array 0) = some (.array [.ref (.array 1), .str "x"]) ∧
    h.cell? (.array 1) = some (.array [.ref (.array 0), .str "x"]) ∧
    ∃ R, h.Bisimulation R ∧ R (.ref (.array 0)) (.ref (.array 1)) := by
  have reached : mutualArrays.Reached := .run .new 1 (.accepting 2) _
  have closed := (Session.reached_moves reached).2.cells
  have left : mutualArrays.heap.Holds (.ref (.array 0)) := (holds_ref _ _).mpr (show 0 < 2 by decide)
  have right : mutualArrays.heap.Holds (.ref (.array 1)) := (holds_ref _ _).mpr (show 1 < 2 by decide)
  refine ⟨rfl, rfl, ?_⟩
  exact (deepEqual_iff_bisimilar closed left right).2.mp (by decide)

end Dil.Heap
