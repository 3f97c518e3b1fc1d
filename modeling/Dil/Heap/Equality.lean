import Dil.Heap.Basic

namespace Dil.Heap

/-- Compares values by content, down to the given number of nested composites. A pair of cells that
is being compared already counts as equal, so that cycles end. -/
def equalWithin (h : Heap) : Nat → List (Ref × Ref) → Value → Value → Bool
  | depth, visiting, .ref a, .ref b =>
    if a = b || visiting.contains (a, b) then true
    else
      match depth, h.cell? a, h.cell? b with
      | n + 1, some c, some d =>
        let parts := c.parts.zip d.parts
        c.label == d.label && c.parts.length == d.parts.length
          && parts.all fun p =>
            p.1.1 == p.2.1 && equalWithin h n ((a, b) :: visiting) p.1.2 p.2.2
      | _, _, _ => false
  | _, _, a, b => a.same b

/-- Whether two values have the same content. Nested pairs of cells are distinct, so that no more
can be nested than there are pairs. -/
def deepEqual (h : Heap) (a b : Value) : Bool := h.equalWithin (h.size * h.size) [] a b

end Dil.Heap
