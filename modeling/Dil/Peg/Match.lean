import Dil.Peg.Basic

/-!
Matching a parsing expression. The matcher also reports every rule it tried, matched or not, so
that a refused text can be explained afterwards.
-/

namespace Dil

/-- A rule that was tried at a byte position, with what was tried inside it. -/
inductive Attempt (ρ : Type) where
  | rule (r : ρ) (position : Nat) (matched : Bool) (inner : List (Attempt ρ))
  /-- Tried inside `unless`, where success and failure change places. -/
  | unless (inner : List (Attempt ρ))

/-- The end of a match. `unfinished` says that the step limit was reached and nothing is known. -/
inductive Verdict (ρ : Type) where
  | matched (trees : List (Tree ρ)) (stop : Cursor)
  | refused
  | unfinished

structure Outcome (ρ : Type) where
  verdict : Verdict ρ
  tried : List (Attempt ρ)

variable {ρ : Type}

namespace Verdict

def isMatch : Verdict ρ → Bool
  | .matched .. => true
  | _ => false

def after (earlier : List (Tree ρ)) : Verdict ρ → Verdict ρ
  | .matched ts d => .matched (earlier ++ ts) d
  | v => v

def gather (kind : RuleKind) (r : ρ) (c : Cursor) : Verdict ρ → Verdict ρ
  | .matched ts d =>
    match kind with
    | .token => .matched [.leaf r (c.spanTo d) (c.textUpTo d)] d
    | _ => .matched [.node r (c.spanTo d) ts] d
  | v => v

end Verdict

def Cursor.read? (c : Cursor) (word : List Char) : Option Cursor :=
  (word.isPrefixOf? c.rest).map (c.past word)

/-- Layout is skipped inside `spaced` rules, except where a rule around them forbids it. -/
def RuleKind.spacing (kind : RuleKind) (spaced : Bool) : Bool :=
  match kind with
  | .spaced => spaced
  | _ => false

namespace Grammar

def skipIf (g : Grammar ρ) (spaced : Bool) (c : Cursor) : Cursor := if spaced then g.skip c else c

/-- Matches `p` at a position, in at most the given depth of steps. -/
def run (g : Grammar ρ) : Nat → Bool → Peg ρ → Cursor → Outcome ρ
  | 0, _, _, _ => ⟨.unfinished, []⟩
  | n + 1, spaced, p, c =>
    match p with
    | .nothing => ⟨.matched [] c, []⟩
    | .endOfInput => ⟨if c.rest.isEmpty then .matched [] c else .refused, []⟩
    | .char accepts =>
      match c.rest with
      | x :: xs => ⟨if accepts x then .matched [] (c.past [x] xs) else .refused, []⟩
      | [] => ⟨.refused, []⟩
    | .text word =>
      match c.read? word with
      | some d => ⟨.matched [] d, []⟩
      | none => ⟨.refused, []⟩
    | .rule r =>
      let x := g.run n ((g.kind r).spacing spaced) (g.body r) c
      ⟨x.verdict.gather (g.kind r) r c, [.rule r c.offset x.verdict.isMatch x.tried]⟩
    | .seq a b =>
      let x := g.run n spaced a c
      match x.verdict with
      | .matched ts d =>
        let y := g.run n spaced b (g.skipIf spaced d)
        ⟨y.verdict.after ts, x.tried ++ y.tried⟩
      | v => ⟨v, x.tried⟩
    | .alt a b =>
      let x := g.run n spaced a c
      match x.verdict with
      | .refused =>
        let y := g.run n spaced b c
        ⟨y.verdict, x.tried ++ y.tried⟩
      | v => ⟨v, x.tried⟩
    | .opt a =>
      let x := g.run n spaced a c
      match x.verdict with
      | .refused => ⟨.matched [] c, x.tried⟩
      | v => ⟨v, x.tried⟩
    | .star a =>
      let x := g.run n spaced a c
      match x.verdict with
      | .matched ts d =>
        let y := g.run n spaced (.more a) d
        ⟨y.verdict.after ts, x.tried ++ y.tried⟩
      | .refused => ⟨.matched [] c, x.tried⟩
      | .unfinished => ⟨.unfinished, x.tried⟩
    | .more a =>
      let x := g.run n spaced a (g.skipIf spaced c)
      match x.verdict with
      | .matched ts d =>
        let y := g.run n spaced (.more a) d
        ⟨y.verdict.after ts, x.tried ++ y.tried⟩
      | .refused => ⟨.matched [] c, x.tried⟩
      | .unfinished => ⟨.unfinished, x.tried⟩
    | .ahead a =>
      let x := g.run n spaced a c
      match x.verdict with
      | .matched _ _ => ⟨.matched [] c, x.tried⟩
      | v => ⟨v, x.tried⟩
    | .unless a =>
      let x := g.run n spaced a c
      match x.verdict with
      | .matched _ _ => ⟨.refused, [.unless x.tried]⟩
      | .refused => ⟨.matched [] c, [.unless x.tried]⟩
      | .unfinished => ⟨.unfinished, [.unless x.tried]⟩

end Grammar

end Dil
