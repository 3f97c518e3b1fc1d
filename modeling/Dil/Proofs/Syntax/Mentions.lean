import Dil.Class

namespace Dil

inductive Mention where
  | word (name : String)
  | key (name : String)

def Mention.name : Mention → String
  | word name | key name => name

section Mentions

variable {P : String → Prop} {names : List String}

theorem forall_word_iff : (∀ m ∈ names.map Mention.word, P m.name) ↔ ∀ name ∈ names, P name :=
  List.forall_mem_map

theorem forall_key_iff : (∀ m ∈ names.map Mention.key, P m.name) ↔ ∀ name ∈ names, P name :=
  List.forall_mem_map

end Mentions

mutual

def Expr.keys : Expr → List String
  | .null _ | .bool _ _ | .int _ _ | .float _ _ | .str _ _ | .create _ _ | .var _ _ => []
  | .map _ entries => Expr.entryKeys entries
  | .array _ items => Expr.itemKeys items
  | .path _ base segments => base.keys ++ Expr.segmentKeys segments
  | .binary _ _ left right => left.keys ++ right.keys
  | .unary _ _ e | .cast _ e _ | .paren _ e => e.keys

def Expr.itemKeys : List Expr → List String
  | [] => []
  | e :: es => e.keys ++ Expr.itemKeys es

def Expr.entryKeys : List Entry → List String
  | [] => []
  | .mk key value :: es => key.name :: (value.keys ++ Expr.entryKeys es)

def Expr.segmentKeys : List Segment → List String
  | [] => []
  | .field _ :: ss => Expr.segmentKeys ss
  | .index position :: ss => position.keys ++ Expr.segmentKeys ss

end

def pathFields : List Segment → List String
  | [] => []
  | .field name :: ss => name.name :: pathFields ss
  | .index _ :: ss => pathFields ss

def ClassDecl.mentions (d : ClassDecl) : List Mention :=
  (d.name.name :: d.fields.map fun f => f.name.name).map .word
    ++ (d.fields.flatMap fun f => f.value.keys).map .key

mutual

def Stmt.mentions : Stmt → List Mention
  | .declare _ d => d.mentions
  | .bind _ _ e | .get _ e => e.keys.map .key
  | .assign _ _ path e =>
    (pathFields path).map .word ++ (Expr.segmentKeys path ++ e.keys).map .key
  | .branch _ c onTrue onFalse =>
    c.keys.map .key ++ (Stmt.blockMentions onTrue ++ Stmt.blockMentions onFalse)
  | .each _ _ _ e body | .loop _ _ e body => e.keys.map .key ++ Stmt.blockMentions body

def Stmt.blockMentions : List Stmt → List Mention
  | [] => []
  | s :: ss => s.mentions ++ Stmt.blockMentions ss

end

def Program.mentions (p : Program) : List Mention := Stmt.blockMentions p.statements

def ClassDef.names (c : ClassDef) : List String :=
  c.name :: (c.fields.map FieldDef.name ++ c.fields.flatMap fun f => f.value.keys)

theorem names_ofDecl {d : ClassDecl} {c : ClassDef} (declared : ClassDef.ofDecl d = .ok c) :
    c.names = d.mentions.map Mention.name := by
  unfold ClassDef.ofDecl at declared
  split at declared <;> cases declared
  simp [ClassDef.names, ClassDecl.mentions, FieldDef.ofDecl, Mention.name, List.flatMap_map,
    Function.comp_def]

theorem Stmt.blockMentions_eq (ss : List Stmt) : blockMentions ss = ss.flatMap Stmt.mentions := by
  induction ss with
  | nil => rfl
  | cons s ss ih => rw [blockMentions, ih, List.flatMap_cons]

end Dil
