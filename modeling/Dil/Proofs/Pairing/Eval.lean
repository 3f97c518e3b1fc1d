import Dil.Proofs.Eval.Twins
import Dil.Proofs.Pairing.Paths

namespace Dil.Pairing

theorem likeness_rules : Eval.TwinRules likeness Values where
  keep step same := same.mono step.within
  scalar scalar := .scalar scalar
  array same := alloc_alike (.array same)
  map same := alloc_alike (.map same)
  get steps alike same := get_alike alike.heaps same steps
  cast t same := cast_alike same t
  index same := toIndex_alike same
  shortcut op same := shortcut_alike op same
  operate op left right := operate_alike op left right
  operateUnary op same := operateUnary_alike op same

def Copier (create : String → Eval Value) : Prop :=
  ∀ name f s s', likeness.Agree (create name) (create name) f s s' Values

section Evaluation

variable {create : String → Eval Value} {scope scope' : Scope}

theorem eval_alike (copier : Copier create) (e : Expr) (f : Pairing) (s s' : Store)
    (bound : f.Scopes scope scope') :
    likeness.Agree (eval create scope e) (eval create scope' e) f s s' Values :=
  eval_twins likeness_rules copier e f s s' bound

theorem evalSegments_alike (copier : Copier create) (segments : List Segment) (f : Pairing)
    (s s' : Store) (bound : f.Scopes scope scope') :
    likeness.Agree (evalSegments create scope segments) (evalSegments create scope' segments) f s s'
      fun _ steps steps' => steps = steps' :=
  evalSegments_twins likeness_rules copier segments f s s' bound

theorem instantiate_alike (classes : Classes) (depth : Nat) : Copier (instantiate classes depth) := by
  induction depth with
  | zero =>
      intro name f s s'
      exact .throw _
  | succ depth ih =>
      intro name f s s'
      rw [instantiate]
      split
      · exact .throw _
      · rename_i c found
        apply building_alike.bind
        rintro g t t' building _ _ rfl
        split
        · exact .throw _
        · apply (inside_alike (newSlots_twins likeness_rules ih c.fields g _ _ .empty .empty
            Table.empty_alike)).bind
          intro e u u' slots slots' _ same
          exact alloc_alike (.object rfl same)

theorem newObject_alike (classes : Classes) : Copier (newObject classes) :=
  instantiate_alike classes (classes.size + 1)

end Evaluation

end Dil.Pairing
