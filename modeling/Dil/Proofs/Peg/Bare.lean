import Dil.Peg.Basic

namespace Dil

def Span.nowhere : Span := ⟨0, 0⟩

@[simp] theorem Span.nowhere_merge : Span.nowhere.merge .nowhere = .nowhere := rfl

namespace Tree

variable {ρ : Type}

mutual

def bare : Tree ρ → Tree ρ
  | .leaf r _ text => .leaf r .nowhere text
  | .node r _ children => .node r .nowhere (bares children)

def bares : List (Tree ρ) → List (Tree ρ)
  | [] => []
  | t :: ts => t.bare :: bares ts

end

@[simp] theorem bares_append (ts us : List (Tree ρ)) :
    bares (ts ++ us) = bares ts ++ bares us := by
  induction ts with
  | nil => rfl
  | cons t ts ih => simp [bares, ih]

end Tree

end Dil
