import Dil.Heap.Equality
import Dil.Proofs.Eval.Additions
import Dil.Proofs.Heap.Paths
import Mathlib.Data.List.Forall2

namespace Dil.Heap

variable {h t : Heap} {v w : Value} {r q : Ref} {n m : Nat}

theorem Reaches.trans (first : h.Reaches v q) {p : Ref} (second : h.Reaches (.ref q) p) :
    h.Reaches v p := by
  induction first with
  | here r => exact second
  | part found member _ ih => exact .part found member (ih second)

/-- Two values with the same content, and with at most so many composites inside one another. -/
inductive Similar (h : Heap) : Nat → Value → Value → Prop where
  | scalar {n : Nat} {v : Value} (scalar : v.Scalar) : Similar h n v v
  | composite {n : Nat} {r q : Ref} {c d : Cell} (found : h.cell? r = some c)
      (other : h.cell? q = some d) (label : c.label = d.label)
      (length : c.parts.length = d.parts.length)
      (names : ∀ p ∈ c.parts.zip d.parts, p.1.1 = p.2.1)
      (parts : ∀ p ∈ c.parts.zip d.parts, Similar h n p.1.2 p.2.2) :
      Similar h (n + 1) (.ref r) (.ref q)

theorem Similar.mono (similar : h.Similar n v w) (enough : n ≤ m) : h.Similar m v w := by
  induction similar generalizing m with
  | scalar scalar => exact .scalar scalar
  | composite found other label length names parts ih =>
      obtain ⟨k, rfl⟩ := Nat.exists_eq_succ_of_ne_zero (by omega : m ≠ 0)
      exact .composite found other label length names fun p member => ih p member (by omega)

theorem Similar.begins (similar : h.Similar n v w) (begins : h.Begins t) : t.Similar n v w := by
  induction similar with
  | scalar scalar => exact .scalar scalar
  | composite found other label length names parts ih =>
      exact .composite (begins.cell found) (begins.cell other) label length names ih

theorem same_self (scalar : v.Scalar) : v.same v = true := by
  cases v with
  | ref r => exact absurd rfl (scalar r)
  | _ => simp [Value.same]

end Dil.Heap
