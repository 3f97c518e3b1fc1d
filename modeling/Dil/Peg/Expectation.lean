import Dil.Peg.Match

/-!
Explaining a refusal: the farthest position that a rule was tried at in vain, with the rules that
were wanted there and those that were not. A rule is named in place of the single rule inside it
that failed at the same position.
-/

namespace Dil

structure Expectation (ρ : Type) where
  position : Nat
  wanted : List ρ
  unwanted : List ρ

variable {ρ : Type}

namespace Expectation

def start : Expectation ρ := ⟨0, [], []⟩

def countAt (e : Expectation ρ) (position : Nat) : Nat :=
  if e.position = position then e.wanted.length + e.unwanted.length else 0

def moveTo (e : Expectation ρ) (position : Nat) : Expectation ρ :=
  if e.position < position then ⟨position, [], []⟩ else e

def backTo (earlier e : Expectation ρ) (position : Nat) : Expectation ρ :=
  if e.position = position then
    if earlier.position = position then
      ⟨position, e.wanted.take earlier.wanted.length, e.unwanted.take earlier.unwanted.length⟩
    else ⟨position, [], []⟩
  else e

/-- Names a rule at a position, unless something farther is known. -/
def name (e : Expectation ρ) (negated : Bool) (r : ρ) (position : Nat) : Expectation ρ :=
  if e.position = position then
    if negated then { e with unwanted := e.unwanted ++ [r] }
    else { e with wanted := e.wanted ++ [r] }
  else e

end Expectation

def RuleKind.inToken : RuleKind → Bool → Bool
  | .token, _ => true
  | .joined, _ => false
  | .spaced, outside => outside

mutual

/-- Takes one attempt into account. `negated` says that the attempt is made in order to fail, and
`inToken` that it is made inside a token. -/
def Attempt.explain (g : Grammar ρ) (negated inToken : Bool) :
    Attempt ρ → Expectation ρ → Expectation ρ
  | .unless inner, e => explainAll g (!negated) inToken inner e
  | .rule r position matched inner, e =>
    let f := explainAll g negated ((g.kind r).inToken inToken) inner e
    if matched != negated || inToken then f
    else if f.countAt position = e.countAt position + 1 then f
    else ((e.backTo f position).moveTo position).name negated r position

def explainAll (g : Grammar ρ) (negated inToken : Bool) :
    List (Attempt ρ) → Expectation ρ → Expectation ρ
  | [], e => e
  | a :: as, e => explainAll g negated inToken as (a.explain g negated inToken e)

end

def alternatives : List String → String
  | [] => ""
  | [a] => a
  | [a, b] => a ++ " or " ++ b
  | names => ", ".intercalate names.dropLast ++ ", or " ++ names.getLastD ""

def refusalText (wanted unwanted : List String) : String :=
  match wanted, unwanted with
  | [], [] => "unknown parsing error"
  | _, [] => "expected " ++ alternatives wanted
  | [], _ => "unexpected " ++ alternatives unwanted
  | _, _ => "unexpected " ++ alternatives unwanted ++ "; expected " ++ alternatives wanted

end Dil
