import Dil.Proofs.Eval.Additions
import Dil.Proofs.Eval.Refusals
import Dil.Proofs.Eval.Twins
import Dil.Proofs.Table
import Mathlib.Data.List.Perm.Subperm
import Mathlib.Logic.Relation

/-!
Classes that need one another. Making an object makes the objects that the defaults of its class ask
for, and so on; each class is under instantiation once at a time, so that this ends. A circle that is
reported is one, and a circle that cannot be avoided is always met.
-/

namespace Dil

open Relation (ReflTransGen TransGen)

/-- Whether the right operand may be left out. -/
def BinaryOp.mayStop : BinaryOp → Bool
  | .and | .or => true
  | _ => false

mutual

/-- The classes that the expression asks for objects of. Only what is evaluated in any case counts as
asked for surely, so that nothing in the right operand of `&&` or `||` does. -/
def Expr.creates (surely : Bool) : Expr → List String
  | .null _ | .bool _ _ | .int _ _ | .float _ _ | .str _ _ | .var _ _ => []
  | .map _ entries => Expr.entriesCreate surely entries
  | .array _ items => Expr.itemsCreate surely items
  | .create _ className => [className.name]
  | .path _ base segments => base.creates surely ++ Expr.segmentsCreate surely segments
  | .binary _ op left right =>
    left.creates surely ++ if surely && op.mayStop then [] else right.creates surely
  | .unary _ _ operand => operand.creates surely
  | .cast _ value _ => value.creates surely
  | .paren _ inner => inner.creates surely

def Expr.itemsCreate (surely : Bool) : List Expr → List String
  | [] => []
  | e :: es => e.creates surely ++ Expr.itemsCreate surely es

def Expr.entriesCreate (surely : Bool) : List Entry → List String
  | [] => []
  | .mk _ value :: es => value.creates surely ++ Expr.entriesCreate surely es

def Expr.segmentsCreate (surely : Bool) : List Segment → List String
  | [] => []
  | .field _ :: ss => Expr.segmentsCreate surely ss
  | .index position :: ss => position.creates surely ++ Expr.segmentsCreate surely ss

end

namespace Classes

/-- A default of the first class asks for an object of the second one. -/
def Needs (classes : Classes) (surely : Bool) (name other : String) : Prop :=
  ∃ c, classes.find? name = some c ∧ ∃ f ∈ c.fields, other ∈ f.value.creates surely

/-- Classes that may be under instantiation together: registered ones, each once. -/
structure Stack (classes : Classes) (building : List String) : Prop where
  distinct : building.Nodup
  registered : ∀ name ∈ building, name ∈ classes.keys

theorem Stack.length_le {classes : Classes} {building : List String}
    (stack : classes.Stack building) : building.length ≤ classes.size := by
  have shorter := (List.subperm_of_subset stack.distinct stack.registered).length_le
  rwa [Table.keys, List.length_map] at shorter

end Classes

def Uncircular {α : Type} (r : Except EvalError α) : Prop :=
  ∀ name, r ≠ .error (.circularInstantiation name)

theorem uncircular_ok {α : Type} (a : α) : Uncircular (.ok a : Except EvalError α) := nofun

theorem Ordinary.uncircular {α : Type} {r : Except EvalError α} (ordinary : Ordinary r) : Uncircular r :=
  fun _ circle => nomatch ordinary _ circle

/-- The evaluation reports a circle only where the making of one of some objects does, inside the same
objects as itself, and succeeds only if others are made. -/
structure Eval.Asks {α : Type} (create : String → Eval Value) (may must : List String)
    (action : Eval α) : Prop where
  circle : ∀ s name, (action s).1 = .error (.circularInstantiation name) → ∃ asked ∈ may,
    ∃ t, t.building = s.building ∧ (create asked t).1 = .error (.circularInstantiation name)
  made : ∀ s a, (action s).1 = .ok a → ∀ asked ∈ must, ∃ t v, (create asked t).1 = .ok v
  keeps : action.Keeps

section Asks

variable {create : String → Eval Value} {scope : Scope} {α β : Type} {may must may' must' : List String}

theorem asks_result {action : Eval α} (plain : ∀ s, Uncircular (action s).1) (keeps : action.Keeps) :
    action.Asks create [] [] :=
  ⟨fun s name failed => absurd failed (plain s name), fun _ _ _ => List.forall_mem_nil _, keeps⟩

theorem asks_pure (a : α) : Eval.Asks create [] [] (pure a : Eval α) :=
  asks_result (fun _ => uncircular_ok a) fun _ => rfl

theorem alloc_uncircular (c : Cell) (s : Store) : Uncircular (Eval.alloc c s).1 := by
  rcases Eval.alloc_cases c s with ⟨_, done⟩ | ⟨_, refused⟩
  · rw [done]
    exact uncircular_ok _
  · rw [refused]
    rintro _ ⟨⟩

theorem asks_alloc (c : Cell) : Eval.Asks create [] [] (Eval.alloc c) :=
  asks_result (alloc_uncircular c) (Eval.alloc_keeps c)

theorem asks_pureResult {r : Except EvalError α} (plain : Uncircular r) :
    Eval.Asks create [] [] (Eval.pureResult r) := asks_result (fun _ => plain) fun _ => rfl

theorem asks_create (keeps : ∀ name, (create name).Keeps) (name : String) :
    Eval.Asks create [name] [name] (create name) where
  circle s _ failed := ⟨name, List.mem_singleton_self name, s, rfl, failed⟩
  made s v done asked member := by
    cases List.mem_singleton.mp member
    exact ⟨s, v, done⟩
  keeps := keeps name

theorem Eval.Asks.weaken {action : Eval α} (asks : action.Asks create may must)
    (more : may ⊆ may') (fewer : must' ⊆ must) : action.Asks create may' must' where
  circle s name failed := by
    obtain ⟨asked, member, t, same, circle⟩ := asks.circle s name failed
    exact ⟨asked, more member, t, same, circle⟩
  made s a done asked member := asks.made s a done asked (fewer member)
  keeps := asks.keeps

theorem Eval.Asks.bind {m : Eval α} {k : α → Eval β} (first : m.Asks create may must)
    (second : ∀ a, (k a).Asks create may' must') :
    Eval.Asks create (may ++ may') (must ++ must') (m >>= k) := by
  constructor
  · intro s name failed
    rw [bind_apply] at failed
    have kept := first.keeps s
    rcases run : m s with ⟨e | a, t⟩
    · rw [run] at failed
      cases failed
      obtain ⟨asked, member, circle⟩ := first.circle s name (by rw [run])
      exact ⟨asked, List.mem_append_left _ member, circle⟩
    · rw [run] at failed kept
      obtain ⟨asked, member, u, same, circle⟩ := (second a).circle t name failed
      exact ⟨asked, List.mem_append_right _ member, u, same.trans kept, circle⟩
  · intro s b done asked member
    rw [bind_apply] at done
    rcases run : m s with ⟨e | a, t⟩
    · rw [run] at done
      cases done
    · rw [run] at done
      rcases List.mem_append.mp member with here | there
      · exact first.made s a (by rw [run]) asked here
      · exact (second a).made t b done asked there
  · exact first.keeps.bind fun a => (second a).keeps

theorem Eval.Asks.bind_nil {m : Eval α} {k : α → Eval β} (first : m.Asks create may must)
    (second : ∀ a, (k a).Asks create [] []) : Eval.Asks create may must (m >>= k) := by
  have both := first.bind second
  rwa [List.append_nil, List.append_nil] at both

mutual

theorem eval_asks (keeps : ∀ name, (create name).Keeps) : ∀ e : Expr,
    (eval create scope e).Asks create (e.creates false) (e.creates true)
  | .null _ | .bool _ _ | .int _ _ | .float _ _ | .str _ _ => by
      rw [eval]
      exact asks_pure _
  | .map _ entries => by
      rw [eval]
      exact (evalEntries_asks keeps entries .empty).bind_nil fun body => asks_alloc (.map body)
  | .array _ items => by
      rw [eval]
      exact (evalItems_asks keeps items).bind_nil fun values => asks_alloc (.array values)
  | .create _ className => by
      rw [eval]
      exact asks_create keeps className.name
  | .var _ name => by
      rw [eval]
      exact asks_pureResult (resolve_ordinary scope name).uncircular
  | .path _ base segments => by
      rw [eval]
      refine (eval_asks keeps base).bind fun root => ?_
      exact (evalSegments_asks keeps segments).bind_nil fun steps =>
        asks_result (fun s => (get_ordinary s.heap root steps).uncircular) fun _ => rfl
  | .binary _ op left right => by
      rw [eval]
      have operated (l : Value) : Eval.Asks create (right.creates false) (right.creates true)
          (eval create scope right >>= fun r => Eval.pureResult (Value.operate op l r)) :=
        (eval_asks keeps right).bind_nil fun r => asks_pureResult (operate_ordinary op l r).uncircular
      rw [Expr.creates, Expr.creates]
      refine (eval_asks keeps left).bind fun l => ?_
      cases stops : op.mayStop with
      | true =>
          simp only [Bool.false_and, Bool.true_and, if_true, Bool.false_eq_true, if_false]
          split
          · exact (asks_pure _).weaken (List.nil_subset _) (List.Subset.refl _)
          · exact (operated l).weaken (List.Subset.refl _) (List.nil_subset _)
      | false =>
          have whole : shortcut? op l = none := by cases op <;> first | rfl | cases stops
          rw [whole]
          simp only [Bool.and_false, Bool.false_eq_true, if_false]
          exact operated l
  | .unary _ op operand => by
      rw [eval]
      exact (eval_asks keeps operand).bind_nil fun v => asks_pureResult (operateUnary_ordinary op v).uncircular
  | .cast _ value target => by
      rw [eval]
      exact (eval_asks keeps value).bind_nil fun v => asks_pureResult (cast_ordinary v target.tag).uncircular
  | .paren _ inner => by
      rw [eval]
      exact eval_asks keeps inner

theorem evalItems_asks (keeps : ∀ name, (create name).Keeps) :
    ∀ items : List Expr, (evalItems create scope items).Asks create
    (Expr.itemsCreate false items) (Expr.itemsCreate true items)
  | [] => by
      rw [evalItems]
      exact asks_pure _
  | e :: es => by
      rw [evalItems]
      exact (eval_asks keeps e).bind fun v => (evalItems_asks keeps es).bind_nil fun vs => asks_pure _

theorem evalEntries_asks (keeps : ∀ name, (create name).Keeps) : ∀ (entries : List Entry) (body : Table Value),
    (evalEntries create scope entries body).Asks create
      (Expr.entriesCreate false entries) (Expr.entriesCreate true entries)
  | [], body => by
      rw [evalEntries]
      exact asks_pure body
  | .mk key value :: es, body => by
      rw [evalEntries]
      exact (eval_asks keeps value).bind fun v => evalEntries_asks keeps es (body.insert key.name v)

theorem evalSegments_asks (keeps : ∀ name, (create name).Keeps) :
    ∀ segments : List Segment, (evalSegments create scope segments).Asks create
    (Expr.segmentsCreate false segments) (Expr.segmentsCreate true segments)
  | [] => by
      rw [evalSegments]
      exact asks_pure _
  | .field name :: ss => by
      rw [evalSegments]
      exact (evalSegments_asks keeps ss).bind_nil fun steps => asks_pure _
  | .index position :: ss => by
      rw [evalSegments]
      refine (eval_asks keeps position).bind fun v => ?_
      have index : Eval.Asks create [] [] (Eval.pureResult v.toIndex) :=
        asks_pureResult (toIndex_ordinary v).uncircular
      exact index.bind fun i => (evalSegments_asks keeps ss).bind_nil fun steps => asks_pure _

end

theorem newSlot_asks (keeps : ∀ name, (create name).Keeps) (f : FieldDef) :
    (newSlot create f).Asks create (f.value.creates false) (f.value.creates true) := by
  rw [newSlot]
  refine (eval_asks keeps f.value).bind_nil fun v => ?_
  cases f.type with
  | none => exact asks_pure _
  | some t => exact (asks_pureResult (cast_ordinary v t).uncircular).bind_nil fun w => asks_pure _

theorem newSlots_asks (keeps : ∀ name, (create name).Keeps) (fields : List FieldDef) (body : Table Slot) :
    (newSlots create fields body).Asks create (fields.flatMap fun f => f.value.creates false)
      (fields.flatMap fun f => f.value.creates true) := by
  induction fields generalizing body with
  | nil => exact asks_pure body
  | cons f fs ih =>
      rw [newSlots]
      exact (newSlot_asks keeps f).bind fun slot => ih (body.insert f.name slot)

end Asks

def instantiateOnce (classes : Classes) (create : String → Eval Value) (name : String) : Eval Value :=
  match classes.find? name with
  | none => throw (.undefinedClass name)
  | some c => do
    let building ← Eval.building
    if building.contains name then throw (.circularInstantiation name)
    else do
      let slots ← Eval.inside name (newSlots create c.fields .empty)
      Eval.alloc (.object ⟨c.name, slots⟩)

theorem instantiate_succ (classes : Classes) (depth : Nat) (name : String) :
    instantiate classes (depth + 1) name = instantiateOnce classes (instantiate classes depth) name :=
  rfl

/-- A new object from slots that are made inside of its making. -/
def makeObject (create : String → Eval Value) (name : String) (c : ClassDef) : Eval Value := do
  let slots ← Eval.inside name (newSlots create c.fields .empty)
  Eval.alloc (.object ⟨c.name, slots⟩)

section Instances

variable {classes : Classes} {create other : String → Eval Value} {name asked : String} {s : Store}

theorem instantiateOnce_cases (classes : Classes) (name : String) (s : Store) :
    (∀ create, instantiateOnce classes create name s = (.error (.undefinedClass name), s)) ∨
    (name ∈ s.building ∧
      ∀ create, instantiateOnce classes create name s = (.error (.circularInstantiation name), s)) ∨
    ∃ c, classes.find? name = some c ∧ name ∉ s.building ∧
      ∀ create, instantiateOnce classes create name s = makeObject create name c s := by
  cases found : classes.find? name with
  | none =>
      refine .inl fun create => ?_
      simp only [instantiateOnce, found]
      rfl
  | some c =>
      have running (create : String → Eval Value) : instantiateOnce classes create name s =
          (if s.building.contains name then throw (.circularInstantiation name)
            else makeObject create name c : Eval Value) s := by
        simp only [instantiateOnce, found]
        exact bind_of_ok _ (Eval.building_apply s)
      by_cases member : name ∈ s.building
      · refine .inr (.inl ⟨member, fun create => ?_⟩)
        rw [running, if_pos (List.contains_iff_mem.mpr member)]
        rfl
      · refine .inr (.inr ⟨c, rfl, member, fun create => ?_⟩)
        rw [running, if_neg (mt List.contains_iff_mem.mp member)]

theorem Classes.Stack.cons {building : List String} (stack : classes.Stack building) {c : ClassDef}
    (found : classes.find? name = some c) (fresh : name ∉ building) :
    classes.Stack (name :: building) where
  distinct := List.nodup_cons.mpr ⟨fresh, stack.distinct⟩
  registered := by
    refine List.forall_mem_cons.mpr ⟨?_, stack.registered⟩
    exact List.mem_map.mpr ⟨_, Table.mem_of_find found, rfl⟩

theorem needs_of_mem {surely : Bool} {c : ClassDef} (found : classes.find? name = some c)
    (member : asked ∈ c.fields.flatMap fun f => f.value.creates surely) :
    classes.Needs surely name asked := by
  obtain ⟨f, inside, asks⟩ := List.mem_flatMap.mp member
  exact ⟨c, found, f, inside, asks⟩

theorem circle_of_makeObject {c : ClassDef} {circle : String} (keeps : ∀ name, (create name).Keeps)
    (failed : (makeObject create name c s).1 = .error (.circularInstantiation circle)) :
    ∃ asked ∈ c.fields.flatMap fun f => f.value.creates false, ∃ t,
      t.building = name :: s.building ∧
        (create asked t).1 = .error (.circularInstantiation circle) := by
  have slots := newSlots_asks keeps c.fields .empty
  rw [makeObject, bind_apply] at failed
  rcases run : Eval.inside name (newSlots create c.fields .empty) s with ⟨e | slots, t⟩
  · rw [run] at failed
    cases failed
    apply slots.circle ⟨s.heap, name :: s.building⟩ circle
    have same := congrArg Prod.fst run
    rw [Eval.inside_apply] at same
    exact same
  · rw [run] at failed
    exact absurd failed (alloc_uncircular _ t circle)

theorem made_of_makeObject {c : ClassDef} {v : Value} (keeps : ∀ name, (create name).Keeps)
    (done : (makeObject create name c s).1 = .ok v) :
    ∀ asked ∈ c.fields.flatMap fun f => f.value.creates true, ∃ t w, (create asked t).1 = .ok w := by
  rw [makeObject, bind_apply] at done
  rcases run : Eval.inside name (newSlots create c.fields .empty) s with ⟨e | slots, t⟩
  · rw [run] at done
    cases done
  · apply (newSlots_asks keeps c.fields .empty).made ⟨s.heap, name :: s.building⟩ slots
    have same := congrArg Prod.fst run
    rw [Eval.inside_apply] at same
    exact same

theorem circle_of_instantiateOnce {circle : String} (keeps : ∀ name, (create name).Keeps)
    (failed : (instantiateOnce classes create name s).1 = .error (.circularInstantiation circle)) :
    (circle = name ∧ name ∈ s.building) ∨ ∃ c, classes.find? name = some c ∧ name ∉ s.building ∧
      ∃ asked, classes.Needs false name asked ∧ ∃ t, t.building = name :: s.building ∧
        (create asked t).1 = .error (.circularInstantiation circle) := by
  rcases instantiateOnce_cases classes name s with undefined | ⟨member, met⟩ | ⟨c, found, fresh, made⟩
  · rw [undefined] at failed
    cases failed
  · rw [met] at failed
    cases failed
    exact .inl ⟨rfl, member⟩
  · rw [made] at failed
    obtain ⟨asked, member, t, inner⟩ := circle_of_makeObject keeps failed
    exact .inr ⟨c, found, fresh, asked, needs_of_mem found member, t, inner⟩

theorem made_of_instantiateOnce {v : Value} (keeps : ∀ name, (create name).Keeps)
    (done : (instantiateOnce classes create name s).1 = .ok v)
    (needs : classes.Needs true name asked) : ∃ t w, (create asked t).1 = .ok w := by
  obtain ⟨c, found, f, inside, member⟩ := needs
  rcases instantiateOnce_cases classes name s with undefined | ⟨_, met⟩ | ⟨d, found', _, made⟩
  · rw [undefined] at done
    cases done
  · rw [met] at done
    cases done
  · cases found.symm.trans found'
    rw [made] at done
    exact made_of_makeObject keeps done asked (List.mem_flatMap.mpr ⟨f, inside, member⟩)

end Instances

section Circles

variable {classes : Classes} {name circle : String} {depth : Nat} {s : Store}

def Eval.oneStore (building : List String) : Likeness EvalError Store Unit where
  Alike _ s s' := s = s' ∧ s.building = building
  Step _ _ _ _ _ _ := True
  Spent _ _ := False
  refl _ _ _ := trivial
  trans _ _ := trivial

section OneStore

variable {α : Type} {building : List String} {m m' : Eval α}

theorem agree_oneStore {w : Unit} {s s' : Store} (keeps : m.Keeps)
    (same : ∀ s, s.building = building → m s = m' s) :
    (Eval.oneStore building).Agree m m' w s s' fun _ => Eq := by
  rintro ⟨rfl, rfl⟩
  have kept := keeps s
  rw [← same s rfl]
  exact Or.inl ⟨(), trivial, ⟨rfl, kept⟩, .refl _⟩

theorem eq_of_oneStore {R : α → α → Prop} (equal : ∀ a b, R a b → a = b)
    (agree : (Eval.oneStore s.building).Agree m m' () s s fun _ => R) : m s = m' s := by
  rcases agree ⟨rfl, rfl⟩ with ⟨_, _, ⟨same, _⟩, concur⟩ | ⟨_, _, never⟩ | ⟨_, _, never⟩
  · refine Prod.ext ?_ same
    rcases concur.elim with ⟨e, failed, failed'⟩ | ⟨a, b, done, done', related⟩
    · rw [failed, failed']
    · rw [done, done', equal a b related]
  · exact never.elim
  · exact never.elim

theorem oneStore_rules : Eval.TwinRules (Eval.oneStore building) fun _ => Eq where
  keep _ same := same
  scalar _ := rfl
  array same := by
    rw [List.forall₂_eq_eq_eq] at same
    exact agree_oneStore (Eval.alloc_keeps _) fun _ _ => by rw [same]
  map same := by
    rw [same.eq fun _ _ => id]
    exact agree_oneStore (Eval.alloc_keeps _) fun _ _ => rfl
  get steps alike same := by
    rw [alike.1, same]
    exact .refl _
  cast _ same := same ▸ .refl _
  index same := congrArg _ same
  shortcut _ same := congrArg _ same
  operate _ left right := left ▸ right ▸ .refl _
  operateUnary _ same := same ▸ .refl _

end OneStore

theorem instantiateOnce_congr {create other : String → Eval Value} (stack : classes.Stack s.building)
    (keeps : ∀ name, (create name).Keeps)
    (same : classes.Stack (name :: s.building) →
      ∀ asked t, t.building = name :: s.building → create asked t = other asked t) :
    instantiateOnce classes create name s = instantiateOnce classes other name s := by
  rcases instantiateOnce_cases classes name s with undefined | ⟨_, circle⟩ | ⟨c, found, fresh, made⟩
  · rw [undefined, undefined]
  · rw [circle, circle]
  · have deeper := same (stack.cons found fresh)
    have slots : newSlots create c.fields .empty ⟨s.heap, name :: s.building⟩ =
        newSlots other c.fields .empty ⟨s.heap, name :: s.building⟩ := by
      have agree := newSlots_twins oneStore_rules
        (fun asked w t t' => agree_oneStore (keeps asked) (deeper asked)) c.fields ()
        ⟨s.heap, name :: s.building⟩ ⟨s.heap, name :: s.building⟩ .empty .empty Table.empty_alike
      exact eq_of_oneStore (fun _ _ alike => alike.eq fun _ _ => Slot.eq_of_alike) agree
    have inner : Eval.inside name (newSlots create c.fields .empty) s =
        Eval.inside name (newSlots other c.fields .empty) s := by
      rw [Eval.inside_apply, Eval.inside_apply, slots]
    rw [made, made, makeObject, makeObject, bind_apply, bind_apply, inner]

theorem instantiate_keeps (classes : Classes) (depth : Nat) (name : String) :
    (instantiate classes depth name).Keeps := (instantiate_adds classes depth name).keeps

/-- The recursion of instantiation, without a limit, wherever no class is under instantiation twice;
of other lists of classes nothing is said. -/
def Classes.Unfolds (classes : Classes) (make : String → Eval Value) : Prop :=
  ∀ name s, classes.Stack s.building → make name s = instantiateOnce classes make name s

/-- The recursion leaves no choice, because no more classes can be under instantiation than there
are; a limit that leaves room for all of them is never met. -/
theorem Classes.Unfolds.eq {make : String → Eval Value} (unfolds : classes.Unfolds make)
    (stack : classes.Stack s.building) (room : classes.size < depth + s.building.length) :
    make name s = instantiate classes depth name s := by
  induction depth generalizing name s with
  | zero =>
      have short := stack.length_le
      omega
  | succ depth ih =>
      rw [unfolds name s stack, instantiate_succ]
      symm
      apply instantiateOnce_congr stack (instantiate_keeps classes depth)
      intro deeper asked t same
      have more : t.building.length = s.building.length + 1 := by rw [same, List.length_cons]
      exact (ih (same ▸ deeper) (by omega)).symm

theorem unfolds_instantiate (classes : Classes) : classes.Unfolds fun name s =>
    instantiate classes (classes.size + 1 - s.building.length) name s := by
  intro name s stack
  have short := stack.length_le
  obtain ⟨depth, room⟩ : ∃ depth, classes.size + 1 - s.building.length = depth + 1 :=
    ⟨classes.size - s.building.length, by omega⟩
  simp only [room, instantiate_succ]
  apply instantiateOnce_congr stack (instantiate_keeps classes depth)
  intro _ asked t same
  have less : classes.size + 1 - t.building.length = depth := by
    rw [same, List.length_cons]
    omega
  rw [less]

/-- A circle that is reported is one: the classes under instantiation need one another in turn. -/
theorem circle_of_instantiate (stack : classes.Stack s.building)
    (room : classes.size < depth + s.building.length)
    (around : ∀ outer ∈ s.building, TransGen (classes.Needs false) outer name)
    (failed : (instantiate classes depth name s).1 = .error (.circularInstantiation circle)) :
    ReflTransGen (classes.Needs false) name circle ∧ TransGen (classes.Needs false) circle circle := by
  induction depth generalizing name s with
  | zero =>
      have short := stack.length_le
      omega
  | succ depth ih =>
      rw [instantiate_succ] at failed
      rcases circle_of_instantiateOnce (instantiate_keeps classes depth) failed with
        ⟨rfl, member⟩ | ⟨c, found, fresh, asked, needs, t, same, inner⟩
      · exact ⟨.refl, around _ member⟩
      · have inside : ∀ outer ∈ t.building, TransGen (classes.Needs false) outer asked := by
          rw [same]
          exact List.forall_mem_cons.mpr
            ⟨.single needs, fun outer member => (around outer member).tail needs⟩
        have deeper : classes.size < depth + t.building.length := by
          rw [same, List.length_cons]
          omega
        obtain ⟨reached, closed⟩ := ih (same ▸ stack.cons found fresh) deeper inside inner
        exact ⟨reached.head needs, closed⟩

theorem acyclic_of_instantiate {v : Value} (done : (instantiate classes depth name s).1 = .ok v)
    (reached : ReflTransGen (classes.Needs true) name circle) :
    ¬ TransGen (classes.Needs true) circle circle := by
  induction depth generalizing name s v with
  | zero => cases done
  | succ depth ih =>
      rw [instantiate_succ] at done
      intro closed
      obtain ⟨asked, needs, further⟩ : ∃ asked, classes.Needs true name asked ∧
          ReflTransGen (classes.Needs true) asked circle := by
        rcases ReflTransGen.cases_head reached with rfl | ⟨asked, needs, further⟩
        · exact TransGen.head'_iff.mp closed
        · exact ⟨asked, needs, further⟩
      obtain ⟨t, w, made⟩ := made_of_instantiateOnce (instantiate_keeps classes depth) done needs
      exact ih made further closed

/-- Instantiation ends, whatever classes need one another: its recursion, without any limit and with
no class under instantiation twice, has one result, and never more classes under instantiation than
are registered, and in the end those are under instantiation again that were so before. Where none was,
it reports a circle only for a class on a circle that it can reach, and where a circle is reached
without going through the right operand of `&&` or `||`, it does not succeed. -/
theorem circles_found (classes : Classes) (name : String) :
    (∀ building, classes.Stack building → building.length ≤ classes.size) ∧
    (∃ make, classes.Unfolds make ∧
      ∀ s, s.building = [] → make name s = newObject classes name s) ∧
    (∀ make, classes.Unfolds make →
      ∀ s, s.building = [] → make name s = newObject classes name s) ∧
    (∀ s, (newObject classes name s).2.building = s.building) ∧
    (∀ s circle, s.building = [] →
      (newObject classes name s).1 = .error (.circularInstantiation circle) →
        ReflTransGen (classes.Needs false) name circle ∧
          TransGen (classes.Needs false) circle circle) ∧
    ∀ s v circle, ReflTransGen (classes.Needs true) name circle →
      TransGen (classes.Needs true) circle circle → (newObject classes name s).1 ≠ .ok v := by
  have none : classes.Stack [] := ⟨List.nodup_nil, List.forall_mem_nil _⟩
  have unique : ∀ make, classes.Unfolds make →
      ∀ s, s.building = [] → make name s = newObject classes name s := by
    intro make unfolds s outermost
    exact unfolds.eq (outermost ▸ none) (by omega)
  refine ⟨fun building stack => stack.length_le, ?_, unique, ?_, ?_, ?_⟩
  · have unfolds := unfolds_instantiate classes
    exact ⟨_, unfolds, unique _ unfolds⟩
  · exact instantiate_keeps classes (classes.size + 1) name
  · intro s circle outermost failed
    exact circle_of_instantiate (outermost ▸ none) (by omega) (by simp [outermost]) failed
  · intro s v circle reached closed done
    exact acyclic_of_instantiate done reached closed

/-- Three classes: `C` asks for `A`, which asks for `B` twice, once where it may be left out, and `B`
asks for `A`. -/
def looped : Classes :=
  let make (name : String) (value : Expr) : ClassDef := ⟨name, [⟨"f", value, none, false⟩], by simp⟩
  let fresh (name : String) : Expr := .create ⟨0, 5⟩ ⟨name, ⟨0, 1⟩⟩
  ((Table.empty.insert "A" (make "A" (.array ⟨0, 20⟩
    [.binary ⟨1, 14⟩ .and (.bool ⟨1, 6⟩ false) (fresh "B"), fresh "B"]))).insert
      "B" (make "B" (fresh "A"))).insert "C" (make "C" (fresh "A"))

theorem looped_circle :
    (newObject looped "C" ⟨.empty, []⟩).1 = .error (.circularInstantiation "A") ∧
    ReflTransGen (looped.Needs false) "C" "A" ∧ TransGen (looped.Needs false) "A" "A" := by
  have reported : (newObject looped "C" ⟨.empty, []⟩).1 = .error (.circularInstantiation "A") := by
    rfl
  have circles := (circles_found looped "C").2.2.2.2.1
  exact ⟨reported, circles ⟨.empty, []⟩ "A" rfl reported⟩

end Circles

end Dil
