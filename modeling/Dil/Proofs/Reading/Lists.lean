import Dil.Proofs.Reading.Lexemes

namespace Dil.Reading

open Rule (Part)

abbrev Piece := List String × List Build.Node

/-- The piece is read as its trees before all tokens that may follow. -/
def Piece.ReadBy (p : Part) (follow : List String → Prop) (piece : Piece) : Prop :=
  ∀ rest, follow rest → Reads p (piece.1 ++ rest) piece.2 rest

section Repetitions

variable {p : Part} {follow : List String → Prop} {pieces : List Piece} {rest : List String}

theorem follow_pieces (next : ∀ piece ∈ pieces, ∀ rest, follow (piece.1 ++ rest))
    (ends : follow rest) : follow (pieces.flatMap Prod.fst ++ rest) := by
  cases pieces with
  | nil => exact ends
  | cons piece pieces =>
      rw [List.flatMap_cons, List.append_assoc]
      exact next piece List.mem_cons_self _

theorem readsMore_pieces (each : ∀ piece ∈ pieces, piece.ReadBy p follow)
    (next : ∀ piece ∈ pieces, ∀ rest, follow (piece.1 ++ rest)) (ends : follow rest)
    (stop : Declines p rest) :
    ReadsMore p (pieces.flatMap Prod.fst ++ rest) (pieces.flatMap Prod.snd) rest := by
  induction pieces with
  | nil => exact reads_more_none stop
  | cons piece pieces ih =>
      have each' : ∀ piece ∈ pieces, piece.ReadBy p follow :=
        fun q member => each q (List.mem_cons_of_mem _ member)
      have next' : ∀ piece ∈ pieces, ∀ rest, follow (piece.1 ++ rest) :=
        fun q member => next q (List.mem_cons_of_mem _ member)
      have first := each piece List.mem_cons_self _ (follow_pieces next' ends)
      rw [List.flatMap_cons, List.flatMap_cons, List.append_assoc]
      exact reads_more first (ih each' next')

/-- Pieces that may follow one another are read one after the other. -/
theorem reads_pieces (each : ∀ piece ∈ pieces, piece.ReadBy p follow)
    (next : ∀ piece ∈ pieces, ∀ rest, follow (piece.1 ++ rest)) (ends : follow rest)
    (stop : Declines p rest) :
    Reads (.star p) (pieces.flatMap Prod.fst ++ rest) (pieces.flatMap Prod.snd) rest := by
  cases pieces with
  | nil => exact reads_star_none stop
  | cons piece pieces =>
      have each' : ∀ piece ∈ pieces, piece.ReadBy p follow :=
        fun q member => each q (List.mem_cons_of_mem _ member)
      have next' : ∀ piece ∈ pieces, ∀ rest, follow (piece.1 ++ rest) :=
        fun q member => next q (List.mem_cons_of_mem _ member)
      have first := each piece List.mem_cons_self _ (follow_pieces next' ends)
      rw [List.flatMap_cons, List.flatMap_cons, List.append_assoc]
      exact reads_star first (readsMore_pieces each' next' ends stop)

end Repetitions

def commaed (lists : List (List String)) : List String := [","].intercalate lists

section Items

variable {item : Part} {pieces : List Piece} {close : String} {rest : List String}

theorem commaed_cons (first : List String) (others : List (List String)) :
    commaed (first :: others) = first ++ others.flatMap fun tokens => "," :: tokens := by
  induction others generalizing first with
  | nil => simp [commaed]
  | cons second others ih =>
      have step : commaed (first :: second :: others) = first ++ "," :: commaed (second :: others) := by
        simp [commaed, List.intercalate]
      rw [step, ih]
      rfl

def EndsItem (close : String) (rest : List String) : Prop :=
  rest.head? = some "," ∨ rest.head? = some close

/-- Items between commas are read up to the mark that closes them. -/
theorem reads_items (each : ∀ piece ∈ pieces, piece.ReadBy item (EndsItem close))
    (noComma : Declines (Peg.word ",") (close :: rest)) (stop : Declines item (close :: rest)) :
    Reads (Rule.items item) (commaed (pieces.map Prod.fst) ++ close :: rest)
      (pieces.flatMap Prod.snd) (close :: rest) := by
  cases pieces with
  | nil => exact reads_opt_none (declines_seq stop)
  | cons piece pieces =>
      let further : List Piece := pieces.map fun q => ("," :: q.1, q.2)
      have tokens : commaed ((piece :: pieces).map Prod.fst) ++ close :: rest
          = piece.1 ++ (further.flatMap Prod.fst ++ close :: rest) := by
        simp [further, commaed_cons, List.flatMap_map]
      have trees : (piece :: pieces).flatMap Prod.snd
          = piece.2 ++ (further.flatMap Prod.snd ++ []) := by
        simp [further, List.flatMap_map]
      have next : ∀ q ∈ further, ∀ rest, EndsItem close (q.1 ++ rest) := by
        intro q member rest
        obtain ⟨q', _, rfl⟩ := List.mem_map.mp member
        exact .inl rfl
      have reads : ∀ q ∈ further, q.ReadBy (.seq (Peg.word ",") item) (EndsItem close) := by
        intro q member rest ends
        obtain ⟨q', among, rfl⟩ := List.mem_map.mp member
        exact reads_skip reads_word (each q' (List.mem_cons_of_mem _ among) rest ends)
      have ends : EndsItem close (close :: rest) := .inr rfl
      have first := each piece List.mem_cons_self _ (follow_pieces next ends)
      rw [tokens, trees]
      exact reads_opt (reads_seq first (reads_seq
        (reads_pieces reads next ends (declines_seq noComma)) (reads_opt_none noComma)))

end Items

end Dil.Reading
