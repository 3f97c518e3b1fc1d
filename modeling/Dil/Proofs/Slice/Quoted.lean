import Dil.Proofs.Render.Literal
import Dil.Proofs.Slice.Alone

namespace Dil.Slice

open Quoted (escape quote)

def quotedTree (s : String) (start : Nat) : Build.Node :=
  .node .stringLiteral ⟨start, start + byteLength (quote s).toList⟩
    [.leaf .stringInner ⟨start + 1, start + 1 + byteLength (escape s.toList)⟩ (escape s.toList)]

def quotedKeyTree (s : String) (start : Nat) : Build.Node :=
  .node .mapKey ⟨start, start + byteLength (quote s).toList⟩ [quotedTree s start]

variable {s : String} {rest : List Char} {start : Nat} {c : Cursor} {sp : Span}

theorem settles_quoted (spaced : Bool) :
    grammar.Settles spaced (.rule .stringLiteral) ⟨(quote s).toList ++ rest, start⟩
      (.matched [quotedTree s start] ⟨rest, start + byteLength (quote s).toList⟩) := by
  have next : (quote s).toList ++ rest = '"' :: (escape s.toList ++ '"' :: rest) := by
    simp [Reading.quote_toList]
  have settles : grammar.Settles spaced (.rule .stringLiteral) ⟨(quote s).toList ++ rest, start⟩ _ :=
    Reading.settles_string (Quoted.isInside_escape s.toList) next
  rwa [← Reading.quote_toList] at settles

theorem settles_quotedKey :
    grammar.Settles true (.rule .mapKey) ⟨(quote s).toList ++ rest, start⟩
      (.matched [quotedKeyTree s start] ⟨rest, start + byteLength (quote s).toList⟩) := by
  have word : grammar.Settles true (.rule .keyIdent) ⟨(quote s).toList ++ rest, start⟩ .refused := by
    refine Grammar.settles_token_refused rfl (.seqRefused (Grammar.settles_char_refused ?_))
    rw [Reading.quote_toList]
    rintro x ⟨⟩
    rfl
  have key : grammar.Settles true (Rule.body .mapKey) ⟨(quote s).toList ++ rest, start⟩ _ :=
    .altSecond word (settles_quoted true)
  exact Grammar.settles_node (g := grammar) (r := .mapKey) rfl key

theorem primary_quoted : Build.primary sp (quotedTree s start) = .ok (.str sp s) := by
  rw [quotedTree, Build.primary, Reading.stringInside_escape]
  rfl

theorem mapKey_quoted : Build.mapKey (quotedKeyTree s start)
    = .ok ⟨s, ⟨start, start + byteLength (quote s).toList⟩⟩ := by
  rw [quotedKeyTree, quotedTree, Build.mapKey, Reading.stringInside_escape]
  rfl

theorem refused_at_quote (head : c.rest.head? = some '"') :
    ∀ q ∈ [Rule.nullLiteral, .boolLiteral, .floatLiteral, .intLiteral],
      grammar.Settles true (.rule q) c .refused := by
  have numbers : ∀ x ∈ c.rest.head?, x.isDigit = false := by
    rw [head]
    rintro x ⟨⟩
    rfl
  obtain ⟨null, bool⟩ := words_refused head (by simp)
  obtain ⟨int, float⟩ := Seam.numbers_refused numbers
  intro q member
  simp only [List.mem_cons, List.not_mem_nil, or_false] at member
  rcases member with rfl | rfl | rfl | rfl
  · exact null
  · exact bool
  · exact float
  · exact int

theorem readExpression_quote (s : String) :
    readExpression (quote s) = .ok (.str ⟨0, byteLength (quote s).toList⟩ s) := by
  have head : (Cursor.ofSource (quote s)).rest.head? = some '"' := by
    rw [Cursor.ofSource, Reading.quote_toList]
    rfl
  have settles : grammar.Settles true (.rule .stringLiteral) ⟨(quote s).toList ++ [], 0⟩ _ := settles_quoted true
  rw [List.append_nil, Nat.zero_add] at settles
  have order : [.nullLiteral, .boolLiteral, .floatLiteral, .intLiteral] ++ Rule.stringLiteral :: _
      = Reading.primaryRules := rfl
  exact readExpression_alone (Reading.solid_quote s) order (refused_at_quote head) settles rfl primary_quoted

def quotedMap (entries : List (String × String)) : String :=
  openBrace ++ ", ".intercalate (entries.map fun e => quote e.1 ++ ": " ++ quote e.2) ++ closeBrace

theorem readExpression_quotedMap (entries : List (String × String)) :
    ∃ e, readExpression (quotedMap entries) = .ok e ∧
      e.unplaced = .map .nowhere (entries.map fun e => .mk ⟨e.1, .nowhere⟩ (.str .nowhere e.2)) := by
  have full {e : Expr} {tokens : List String} (spells : Reading.Spells .primary e tokens) :
      Reading.Spells .full e tokens :=
    Reading.spells_raise_full (Reading.spells_raise_chain (Reading.spells_raise_operand spells))
  have key (e : String × String) (_ : e ∈ entries) : Reading.KeySpelling e.1 (quote e.1) := .inl rfl
  have spells := Reading.spells_map key fun e _ => full (Reading.spells_str e.2)
  have entry (e : String × String) (_ : e ∈ entries) : Reading.Writes (quote e.1 ++ ": " ++ quote e.2).toList
      (quote e.1 :: ":" :: [quote e.2]) := by
    have value := Reading.solid_quote e.2
    simpa using Reading.writes_entry (Reading.solid_quote e.1) (Reading.writes_token value) value.ne_nil
  have opens : Shown.IsBracket openBrace := ⟨'{', rfl, rfl, rfl⟩
  have closes : Shown.IsBracket closeBrace := ⟨'}', rfl, rfl, rfl⟩
  have writes := Shown.writes_enclosed opens closes (Reading.writes_commaed entry fun e _ => by simp)
  exact Reading.readExpression_of_spells (full spells) writes.laid

/-- An escaped text has no control character, its quotes are escaped, and it is read back as it was. Between
quotes it is one literal, whatever follows, and nothing else; the same holds where a key of a map is read. So
quoted texts are expressions, and keys and values of maps. -/
theorem quoted_texts_are_literals :
    (∀ s : String, Quoted.Sealed (escape s.toList) ∧ Quoted.unescape (escape s.toList) = some s.toList
        ∧ (∀ rest start v, let c : Cursor := ⟨(quote s).toList ++ rest, start⟩
          let d : Cursor := ⟨rest, start + byteLength (quote s).toList⟩
          (∀ spaced, grammar.Settles spaced (.rule .stringLiteral) c v ↔ v = .matched [quotedTree s start] d)
            ∧ (grammar.Settles true (.rule .mapKey) c v ↔ v = .matched [quotedKeyTree s start] d))
        ∧ (∀ sp start, Build.primary sp (quotedTree s start) = .ok (.str sp s)
          ∧ Build.mapKey (quotedKeyTree s start) = .ok ⟨s, ⟨start, start + byteLength (quote s).toList⟩⟩)
        ∧ readExpression (quote s) = .ok (.str ⟨0, byteLength (quote s).toList⟩ s))
      ∧ ∀ entries, ∃ e, readExpression (quotedMap entries) = .ok e ∧
          e.unplaced = .map .nowhere (entries.map fun e => .mk ⟨e.1, .nowhere⟩ (.str .nowhere e.2)) := by
  refine ⟨fun s => ⟨Quoted.sealed_escape s.toList, Quoted.unescape_escape s.toList, ?_, ?_, ?_⟩, ?_⟩
  · intro rest start v
    refine ⟨fun spaced => ⟨fun settles => settles.unique (settles_quoted spaced), ?_⟩,
      fun settles => settles.unique settles_quotedKey, ?_⟩
    · rintro rfl
      exact settles_quoted spaced
    · rintro rfl
      exact settles_quotedKey
  · exact fun sp start => ⟨primary_quoted, mapKey_quoted⟩
  · exact readExpression_quote s
  · exact readExpression_quotedMap

end Dil.Slice
