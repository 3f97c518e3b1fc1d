import Dil.Proofs.Eval.Makes
import Dil.Proofs.Eval.Places
import Dil.Proofs.Reading.Statements
import Dil.Proofs.Render.Literal
import Dil.Session
import Mathlib.Tactic.Choose

namespace Dil

open Reading

/-- Neither a float nor the integer whose opposite does not fit. -/
def Value.Plain : Value → Prop
  | .float _ => False
  | .int n => n ≠ Int64.minValue
  | _ => True

def Cell.Plain : Cell → Prop
  | .array items => ∀ v ∈ items, v.Plain
  | .map body => ∀ e ∈ body.entries, isWord e.1.toList = true ∧ e.2.Plain
  | .object _ => False

structure Heap.Legible (h : Heap) (v : Value) : Prop where
  value : v.Plain
  cells : ∀ r c, h.Reaches v r → h.cell? r = some c → c.Plain

section Literals

variable {h : Heap} {v : Value} {r : Ref} {c : Cell} {n : Nat}

theorem Cell.Plain.values (plain : c.Plain) : ∀ w ∈ c.values, w.Plain := by
  cases c with
  | array items =>
      rw [values_array]
      exact plain
  | map body =>
      intro w member
      rw [values_map] at member
      obtain ⟨e, inside, rfl⟩ := List.mem_map.mp member
      exact (plain e inside).2
  | object body => exact plain.elim

theorem Heap.Legible.part {w : Value} (legible : h.Legible (.ref r)) (found : h.cell? r = some c)
    (member : w ∈ c.values) : h.Legible w where
  value := (legible.cells r c (.here r) found).values w member
  cells q d reaches there := legible.cells q d (.part found member reaches) there

end Literals

namespace Session

def escaped : List Value := [.str "a\"\\\n\x01é", .int (-7)]

def keyed : Table Value := ⟨[("IF", .ref (.array 0)), ("k_1", .null)], by decide⟩

end Session

end Dil
