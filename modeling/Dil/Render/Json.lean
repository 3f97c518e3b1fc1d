import Dil.Render.Text

namespace Dil

namespace JsonText

def escapeChar (c : Char) : List Char :=
  match c with
  | '"' => ['\\', '"']
  | '\\' => ['\\', '\\']
  | '\x08' => ['\\', 'b']
  | '\x0c' => ['\\', 'f']
  | '\n' => ['\\', 'n']
  | '\r' => ['\\', 'r']
  | '\t' => ['\\', 't']
  | c =>
    if c.toNat < 0x20 then
      '\\' :: 'u' :: '0' :: '0' :: Numeral.digitChar (c.toNat / 16)
        :: [Numeral.digitChar (c.toNat % 16)]
    else [c]

def quote (s : String) : String := "\"" ++ String.ofList (s.toList.flatMap escapeChar) ++ "\""

def array (items : List String) : String := "[" ++ ",".intercalate items ++ "]"

def object (members : List String) : String := openBrace ++ ",".intercalate members ++ closeBrace

end JsonText

mutual

def Shown.json : Shown → String
  | .null => "null"
  | .bool b => boolText b
  | .int n => int64Text n
  | .float x => FloatStyle.json.text x
  | .str s => JsonText.quote s
  | .list items => JsonText.array (itemJsons items)
  | .record _ entries => JsonText.object (entryJsons entries)
  | .cycle => JsonText.quote cycleMark
  | .deep => JsonText.quote depthMark

def itemJsons : List Shown → List String
  | [] => []
  | v :: vs => v.json :: itemJsons vs

def entryJsons : List ShownEntry → List String
  | [] => []
  | .mk name v :: es => (JsonText.quote name ++ ":" ++ v.json) :: entryJsons es

end

end Dil
