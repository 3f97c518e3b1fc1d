import Dil.Render.Shown

namespace Dil

def cycleMark : String := "<cycle>"

def depthMark : String := "..."

def braced (parts : List String) : String := openBrace ++ ", ".intercalate parts ++ closeBrace

mutual

/-- The names of maps and objects are written as they are, and texts in quotes. -/
def Shown.text : Shown → String
  | .null => "null"
  | .bool b => boolText b
  | .int n => int64Text n
  | .float x => FloatStyle.plain.text x
  | .str s => Quoted.quote s
  | .list items => "[" ++ ", ".intercalate (itemTexts items) ++ "]"
  | .record none entries => braced (entryTexts entries)
  | .record (some className) entries => className ++ " " ++ braced (entryTexts entries)
  | .cycle => cycleMark
  | .deep => depthMark

def itemTexts : List Shown → List String
  | [] => []
  | v :: vs => v.text :: itemTexts vs

def entryTexts : List ShownEntry → List String
  | [] => []
  | .mk name v :: es => (name ++ ": " ++ v.text) :: entryTexts es

end

end Dil
