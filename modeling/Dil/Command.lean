import Dil.Reader
import Dil.Render.Json
import Dil.Render.Yaml
import Dil.Session
import Dil.Syntax.Outline

namespace Dil

inductive Format where
  | text
  | json
  | yaml
  deriving DecidableEq, Repr

namespace Format

def ofName? : String → Option Format
  | "text" => some text
  | "json" => some json
  | "yaml" => some yaml
  | _ => none

def render : Format → Shown → String
  | text, v => v.text
  | json, v => v.json
  | yaml, v => v.yaml

end Format

inductive Setting where
  | format
  | depth
  deriving DecidableEq, Repr

inductive Word where
  | operand (text : String)
  | setting (name : Setting) (value : String)
  deriving DecidableEq, Repr

namespace Word

def longSetting? : String → Option Setting
  | "format" => some .format
  | "max-render-depth" => some .depth
  | _ => none

def shortSetting? : Char → Option Setting
  | 'f' => some .format
  | _ => none

/-- The setting and the value, if it is in the same word: behind an equals sign, which a short
option may leave out. Anything else that starts with a hyphen is no option. -/
def option? : List Char → Option (Setting × Option String)
  | '-' :: cs =>
    let value := match cs.dropWhile (· != '=') with
      | [] => none
      | _ :: v => some (String.ofList v)
    (longSetting? (String.ofList (cs.takeWhile (· != '=')))).map fun s => (s, value)
  | c :: cs =>
    let value := match cs with
      | [] => none
      | '=' :: v => some (String.ofList v)
      | v => some (String.ofList v)
    (shortSetting? c).map fun s => (s, value)
  | [] => none

/-- The words behind the name of a command. An option without a value takes the word behind it,
and two hyphens end the options. A hyphen alone is an operand. -/
def ofArgs? : List String → Option (List Word)
  | [] => some []
  | arg :: args =>
    match arg.toList with
    | ['-', '-'] => some (args.map operand)
    | '-' :: c :: cs =>
      match option? (c :: cs), args with
      | some (s, some v), args => (ofArgs? args).map (setting s v :: ·)
      | some (s, none), v :: args => (ofArgs? args).map (setting s v :: ·)
      | _, _ => none
    | _ => (ofArgs? args).map (operand arg :: ·)

def operands (words : List Word) : List String :=
  words.filterMap fun
    | operand text => some text
    | setting _ _ => none

def values (name : Setting) (words : List Word) : List String :=
  words.filterMap fun
    | operand _ => none
    | setting s v => if s = name then some v else none

end Word

inductive Command where
  /-- Runs a script and shows what it hands out. -/
  | run (file : String) (format : Format) (depth : Nat)
  /-- Outlines a script. -/
  | parse (file : String)
  /-- Shows the value of an expression. -/
  | expr (source : String) (format : Format)
  | version
  deriving DecidableEq, Repr

namespace Command

def depth? (s : String) : Option Nat :=
  let n? := match s.toList with
    | '+' :: cs => Numeral.natural? 10 cs
    | cs => Numeral.natural? 10 cs
  n?.filter (· < UInt64.size)

def file? (s : String) : Option String := if s.isEmpty then none else some s

def setting? {α : Type} (read : String → Option α) (default : α) : List String → Option α
  | [] => some default
  | [v] => read v
  | _ => none

def ofWords? (name : String) (words : List Word) : Option Command :=
  let format? := setting? Format.ofName? .text (Word.values .format words)
  match name, Word.operands words, Word.values .format words, Word.values .depth words with
  | "run", [s], _, depths => do
    return run (← file? s) (← format?) (← setting? depth? defaultDepth depths)
  | "parse", [s], [], [] => (file? s).map parse
  | "expr", [s], _, [] => format?.map (expr s)
  | _, _, _, _ => none

def ofArgs? : List String → Option Command
  | [] => none
  | name :: args =>
    if name = "--version" ∨ "-V".toList <+: name.toList then some version
    else (Word.ofArgs? args).bind (ofWords? name)

def script? : Command → Option String
  | run file _ _ => some file
  | parse file => some file
  | expr _ _ => none
  | version => none

end Command

inductive Status where
  | success
  | failed
  /-- The command line or the source is malformed. -/
  | malformed
  /-- The script is missing or no text. -/
  | unreadable
  deriving DecidableEq, Repr

def Status.code : Status → Nat
  | success => 0
  | failed => 1
  | malformed => 2
  | unreadable => 3

structure Reply where
  status : Status
  output : String

namespace Reply

def lines (status : Status) (ls : List String) : Reply := ⟨status, String.join (ls.map (· ++ "\n"))⟩

def ofSource {α : Type} (read : String → Except ReadError α) (reply : α → Reply)
    (source : String) : Reply :=
  match read source with
  | .ok a => reply a
  | .error _ => lines .malformed []

def ofReport (format : Format) (r : Report) : Reply :=
  let status := match r.ending with
    | .finished => .success
    | .failed _ | .unfinished => .failed
  lines status (r.emissions.map fun e => format.render e.shown)

end Reply

def versionText : String := "dil 0.1.0"

namespace Command

/-- Carries out a command on the content of its script. There is none if it cannot be read. -/
def perform (c : Command) (content : Option String) : Reply :=
  match c, content with
  | run _ format depth, some source =>
    Reply.ofSource readProgram
      (fun p => .ofReport format (Session.new.run manyRounds (.accepting depth) p)) source
  | parse _, some source => Reply.ofSource readProgram (fun p => .lines .success [p.outline]) source
  | run _ _ _, none | parse _, none => .lines .unreadable []
  | expr source format, _ =>
    Reply.ofSource readExpression (fun e =>
      match Session.new.eval e with
      | (.ok v, s) => .lines .success [format.render (s.heap.view defaultDepth v)]
      | (.error _, _) => .lines .failed []) source
  | version, _ => .lines .success [versionText]

end Command

end Dil
