import Dil.Table
import Dil.Syntax.Basic
import Dil.Value.Error

namespace Dil

structure FieldDef where
  name : String
  /-- Evaluated anew for every object. -/
  value : Expr
  type : Option Tag
  overwritable : Bool

structure ClassDef where
  name : String
  fields : List FieldDef
  distinct : (fields.map FieldDef.name).Nodup

def FieldDef.ofDecl (d : FieldDecl) : FieldDef :=
  ⟨d.name.name, d.value, d.type.map TypeName.tag, d.overwrite⟩

def repeatedName? : List String → List String → Option String
  | _, [] => none
  | earlier, name :: names =>
    if earlier.contains name then some name else repeatedName? (name :: earlier) names

theorem distinct_of_unrepeated (earlier names : List String)
    (unrepeated : repeatedName? earlier names = none) :
    names.Nodup ∧ ∀ name ∈ names, name ∉ earlier := by
  induction names generalizing earlier with
  | nil => exact ⟨List.nodup_nil, fun _ member => absurd member List.not_mem_nil⟩
  | cons name names ih =>
      by_cases old : earlier.contains name
      · rw [repeatedName?, if_pos old] at unrepeated
        cases unrepeated
      · rw [repeatedName?, if_neg old] at unrepeated
        obtain ⟨distinct, fresh⟩ := ih (name :: earlier) unrepeated
        have single : name ∉ names := fun member => fresh name member List.mem_cons_self
        refine ⟨List.nodup_cons.mpr ⟨single, distinct⟩, ?_⟩
        intro other member
        rcases List.mem_cons.mp member with here | later
        · subst other
          simpa using old
        · exact fun early => fresh other later (List.mem_cons_of_mem _ early)

theorem fieldDefs_distinct (d : ClassDecl)
    (unrepeated : repeatedName? [] (d.fields.map fun f => f.name.name) = none) :
    ((d.fields.map FieldDef.ofDecl).map FieldDef.name).Nodup := by
  rw [List.map_map]
  exact (distinct_of_unrepeated [] _ unrepeated).1

/-- No two fields of a class have one name. -/
def ClassDef.ofDecl (d : ClassDecl) : Except EvalError ClassDef :=
  match unrepeated : repeatedName? [] (d.fields.map fun f => f.name.name) with
  | some field => .error (.duplicateField d.name.name field)
  | none => .ok ⟨d.name.name, d.fields.map FieldDef.ofDecl, fieldDefs_distinct d unrepeated⟩

abbrev Classes := Table ClassDef

def Classes.declare (classes : Classes) (c : ClassDef) : Except EvalError Classes :=
  if classes.contains c.name then .error (.duplicateClass c.name)
  else .ok (classes.insert c.name c)

end Dil
