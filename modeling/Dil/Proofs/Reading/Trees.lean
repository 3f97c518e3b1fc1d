import Dil.Proofs.Peg.Shape
import Dil.Proofs.Reading.Words
import Dil.Syntax.OfTree

namespace Dil.Reading

open Peg Rule

section Gives

variable {G : Rule → Build.Node → Prop} {ts : List Build.Node}

@[simp] theorem gives_word (s : String) : (Peg.word s).Gives G ts ↔ ts = [] := Iff.rfl

@[simp] theorem gives_words (ss : List String) : (Peg.words ss).Gives G ts ↔ ts = [] := by
  rw [Peg.words]
  induction ss with
  | nil => exact Iff.rfl
  | cons s ss ih =>
      cases ss with
      | nil => exact Iff.rfl
      | cons r rs => exact or_iff_left_of_imp ih.mp

@[simp] theorem gives_wholeWord (kw : Rule) : (wholeWord kw).Gives G ts ↔ ts = [] := by
  simp [wholeWord, Gives]

@[simp] theorem gives_rule (r : Rule) : (Peg.rule r).Gives G ts ↔ ∃ t, ts = [t] ∧ G r t := Iff.rfl

@[simp] theorem gives_seq (a b : Part) :
    (Peg.seq a b).Gives G ts ↔ ∃ us vs, ts = us ++ vs ∧ a.Gives G us ∧ b.Gives G vs := Iff.rfl

@[simp] theorem gives_opt (a : Part) : (Peg.opt a).Gives G ts ↔ ts = [] ∨ a.Gives G ts := Iff.rfl

@[simp] theorem gives_alt (a b : Part) :
    (Peg.alt a b).Gives G ts ↔ a.Gives G ts ∨ b.Gives G ts := Iff.rfl

theorem gives_star {p : Part} {P : Build.Node → Prop}
    (single : ∀ us, p.Gives G us ↔ ∃ t, us = [t] ∧ P t) :
    (Peg.star p).Gives G ts ↔ ∀ t ∈ ts, P t := by
  constructor
  · rintro ⟨tss, rfl, each⟩ t member
    obtain ⟨us, inside, among⟩ := List.mem_flatten.mp member
    obtain ⟨u, rfl, holds⟩ := (single us).mp (each us inside)
    cases List.mem_singleton.mp among
    exact holds
  · intro each
    refine ⟨ts.map fun t => [t], by simp [← List.flatMap_def], fun us member => ?_⟩
    obtain ⟨t, inside, rfl⟩ := List.mem_map.mp member
    exact (single _).mpr ⟨t, rfl, each t inside⟩

@[simp] theorem gives_star_rule (r : Rule) :
    (Peg.star (.rule r)).Gives G ts ↔ ∀ t ∈ ts, G r t := gives_star fun _ => Iff.rfl

@[simp] theorem gives_star_segment :
    (Peg.star pathSegment).Gives G ts ↔ ∀ t ∈ ts, G .fieldSegment t ∨ G .indexSegment t := by
  refine gives_star fun us => ?_
  simp only [pathSegment, gives_alt, gives_rule]
  exact ⟨fun either => either.elim (fun ⟨t, same, holds⟩ => ⟨t, same, .inl holds⟩)
    fun ⟨t, same, holds⟩ => ⟨t, same, .inr holds⟩,
    fun ⟨t, same, either⟩ => either.imp (fun holds => ⟨t, same, holds⟩) fun holds => ⟨t, same, holds⟩⟩

theorem gives_items (r : Rule) (given : (Rule.items (.rule r)).Gives G ts) : ∀ t ∈ ts, G r t := by
  have further : ∀ us, (Peg.star (.seq (Peg.word ",") (.rule r))).Gives G us ↔ ∀ t ∈ us, G r t :=
    fun us => gives_star fun vs => by simp
  simp only [Rule.items, Peg.all, gives_opt, gives_seq, gives_rule, gives_word, or_self,
    further] at given
  rcases given with rfl | ⟨_, _, rfl, ⟨t, rfl, holds⟩, us, _, rfl, each, rfl⟩
  · nofun
  · simpa using ⟨holds, each⟩

theorem gives_first {r : Rule} {rs : List Rule}
    (given : (Peg.first ((r :: rs).map .rule)).Gives G ts) :
    ∃ q ∈ r :: rs, ∃ t, ts = [t] ∧ G q t := by
  induction rs generalizing r with
  | nil => exact ⟨r, List.mem_cons_self, given⟩
  | cons q rs ih =>
      rcases given with here | later
      · exact ⟨r, List.mem_cons_self, here⟩
      · obtain ⟨p, member, found⟩ := ih later
        exact ⟨p, List.mem_cons_of_mem _ member, found⟩

end Gives

section Expressions

variable {t : Build.Node} {r : Rule}

theorem shape_of_grown (spaced : Rule.kind r = .spaced) (grown : grammar.Grown r t) :
    ∃ sp ts, t = .node r sp ts ∧ (Rule.body r).Gives grammar.Grown ts :=
  grown.node Layout.skip_skip spaced

theorem grown_expression_typed (grown : grammar.Grown .expression t) :
    ∃ sp a ts, t = .node .expression sp (a :: ts) ∧ grammar.Grown .arithExpr a
      ∧ (ts = [] ∨ ∃ b, ts = [b] ∧ grammar.Grown .typeSuffix b) := by
  obtain ⟨sp, ts, rfl, given⟩ := shape_of_grown rfl grown
  change (Peg.seq _ _).Gives _ _ at given
  simp only [gives_seq, gives_rule, gives_opt] at given
  obtain ⟨_, us, rfl, ⟨a, rfl, first⟩, rest⟩ := given
  exact ⟨sp, a, us, rfl, first, rest⟩

theorem grown_expression (grown : grammar.Grown .expression t) :
    ∃ sp a ts, t = .node .expression sp (a :: ts) ∧ grammar.Grown .arithExpr a
      ∧ (ts = [] ∨ ∃ b, ts = [b]) := by
  obtain ⟨sp, a, ts, rfl, first, rest⟩ := grown_expression_typed grown
  exact ⟨sp, a, ts, rfl, first, rest.imp id fun ⟨b, same, _⟩ => ⟨b, same⟩⟩

theorem grown_arithExpr_signs (grown : grammar.Grown .arithExpr t) :
    ∃ sp a tss, t = .node .arithExpr sp (a :: List.flatten tss) ∧ grammar.Grown .prefixExpr a
      ∧ ∀ us ∈ tss, ∃ sign b, us = [sign, b] ∧ grammar.Grown .binaryOp sign
        ∧ grammar.Grown .prefixExpr b := by
  obtain ⟨sp, ts, rfl, given⟩ := shape_of_grown rfl grown
  change (Peg.seq _ _).Gives _ _ at given
  simp only [gives_seq, gives_rule] at given
  obtain ⟨_, _, rfl, ⟨a, rfl, first⟩, tss, rfl, each⟩ := given
  refine ⟨sp, a, tss, rfl, first, fun us member => ?_⟩
  obtain ⟨_, _, rfl, ⟨sign, rfl, operator⟩, b, rfl, operand⟩ := each us member
  exact ⟨sign, b, rfl, operator, operand⟩

theorem grown_arithExpr (grown : grammar.Grown .arithExpr t) :
    ∃ sp a tss, t = .node .arithExpr sp (a :: List.flatten tss) ∧ grammar.Grown .prefixExpr a
      ∧ ∀ us ∈ tss, ∃ sign b, us = [sign, b] ∧ grammar.Grown .prefixExpr b := by
  obtain ⟨sp, a, tss, rfl, first, each⟩ := grown_arithExpr_signs grown
  refine ⟨sp, a, tss, rfl, first, fun us member => ?_⟩
  obtain ⟨sign, b, rfl, -, operand⟩ := each us member
  exact ⟨sign, b, rfl, operand⟩

theorem grown_prefixExpr (grown : grammar.Grown .prefixExpr t) :
    ∃ sp signs a, t = .node .prefixExpr sp (signs ++ [a]) ∧ grammar.Grown .postfixExpr a
      ∧ ∀ sign ∈ signs, grammar.Grown .unaryOp sign := by
  obtain ⟨sp, ts, rfl, given⟩ := shape_of_grown rfl grown
  change (Peg.seq _ _).Gives _ _ at given
  simp only [gives_seq, gives_rule, gives_star_rule] at given
  obtain ⟨signs, _, rfl, each, a, rfl, last⟩ := given
  exact ⟨sp, signs, a, rfl, last, each⟩

theorem grown_postfixExpr (grown : grammar.Grown .postfixExpr t) :
    ∃ sp a ts, t = .node .postfixExpr sp (a :: ts) ∧ grammar.Grown .primaryExpr a
      ∧ ∀ s ∈ ts, grammar.Grown .fieldSegment s ∨ grammar.Grown .indexSegment s := by
  obtain ⟨sp, ts, rfl, given⟩ := shape_of_grown rfl grown
  change (Peg.seq _ _).Gives _ _ at given
  simp only [gives_seq, gives_rule, gives_star_segment] at given
  obtain ⟨_, us, rfl, ⟨a, rfl, first⟩, each⟩ := given
  exact ⟨sp, a, us, rfl, first, each⟩

theorem grown_primaryExpr (grown : grammar.Grown .primaryExpr t) :
    ∃ sp r a, t = .node .primaryExpr sp [a] ∧ grammar.Grown r a
      ∧ r ∈ [Rule.nullLiteral, .boolLiteral, .floatLiteral, .intLiteral, .stringLiteral, .mapLiteral,
        .arrayLiteral, .newExpr, .identifier, .parenExpr] := by
  obtain ⟨sp, ts, rfl, given⟩ := shape_of_grown rfl grown
  obtain ⟨r, member, a, rfl, inner⟩ := gives_first given
  exact ⟨sp, r, a, rfl, inner, member⟩

theorem grown_enclosed {q : Rule} (spaced : Rule.kind r = .spaced)
    (shape : ∀ ts, (Rule.body r).Gives grammar.Grown ts → ∃ a, ts = [a] ∧ grammar.Grown q a)
    (grown : grammar.Grown r t) : ∃ sp a, t = .node r sp [a] ∧ grammar.Grown q a := by
  obtain ⟨sp, ts, rfl, given⟩ := shape_of_grown spaced grown
  obtain ⟨a, rfl, inner⟩ := shape ts given
  exact ⟨sp, a, rfl, inner⟩

theorem grown_typeSuffix (grown : grammar.Grown .typeSuffix t) :
    ∃ sp a, t = .node .typeSuffix sp [a] ∧ grammar.Grown .typeName a :=
  grown_enclosed rfl (fun ts given => by
    change (Peg.seq _ _).Gives _ _ at given
    simpa using given) grown

theorem grown_parenExpr (grown : grammar.Grown .parenExpr t) :
    ∃ sp a, t = .node .parenExpr sp [a] ∧ grammar.Grown .expression a :=
  grown_enclosed rfl (fun ts given => by
    change (Peg.all _).Gives _ _ at given
    simpa [Peg.all] using given) grown

theorem grown_newExpr (grown : grammar.Grown .newExpr t) :
    ∃ sp a, t = .node .newExpr sp [a] ∧ grammar.Grown .identifier a :=
  grown_enclosed rfl (fun ts given => by
    change (Peg.all _).Gives _ _ at given
    simpa [Peg.all] using given) grown

theorem grown_fieldSegment (grown : grammar.Grown .fieldSegment t) :
    ∃ sp a, t = .node .fieldSegment sp [a] ∧ grammar.Grown .keyIdent a :=
  grown_enclosed rfl (fun ts given => by
    change (Peg.seq _ _).Gives _ _ at given
    simpa using given) grown

theorem grown_indexSegment (grown : grammar.Grown .indexSegment t) :
    ∃ sp a, t = .node .indexSegment sp [a] ∧ grammar.Grown .expression a :=
  grown_enclosed rfl (fun ts given => by
    change (Peg.all _).Gives _ _ at given
    simpa [Peg.all] using given) grown

theorem grown_arrayLiteral (grown : grammar.Grown .arrayLiteral t) :
    ∃ sp ts, t = .node .arrayLiteral sp ts ∧ ∀ a ∈ ts, grammar.Grown .expression a := by
  obtain ⟨sp, ts, rfl, given⟩ := shape_of_grown rfl grown
  change (Peg.all _).Gives _ _ at given
  simp only [Peg.all, gives_seq, gives_word] at given
  obtain ⟨_, _, rfl, rfl, us, _, rfl, items, rfl⟩ := given
  exact ⟨sp, _, rfl, by simpa using gives_items .expression items⟩

theorem grown_mapLiteral (grown : grammar.Grown .mapLiteral t) :
    ∃ sp ts, t = .node .mapLiteral sp ts ∧ ∀ a ∈ ts, grammar.Grown .mapEntry a := by
  obtain ⟨sp, ts, rfl, given⟩ := shape_of_grown rfl grown
  change (Peg.all _).Gives _ _ at given
  simp only [Peg.all, gives_seq, gives_word] at given
  obtain ⟨_, _, rfl, rfl, us, _, rfl, items, rfl⟩ := given
  exact ⟨sp, _, rfl, by simpa using gives_items .mapEntry items⟩

theorem grown_mapEntry_keyed (grown : grammar.Grown .mapEntry t) :
    ∃ sp key a, t = .node .mapEntry sp [key, a] ∧ grammar.Grown .mapKey key
      ∧ grammar.Grown .expression a := by
  obtain ⟨sp, ts, rfl, given⟩ := shape_of_grown rfl grown
  change (Peg.all _).Gives _ _ at given
  simp only [Peg.all, gives_seq, gives_rule, gives_word] at given
  obtain ⟨_, _, rfl, ⟨key, rfl, name⟩, _, _, rfl, rfl, a, rfl, value⟩ := given
  exact ⟨sp, key, a, rfl, name, value⟩

theorem grown_mapEntry (grown : grammar.Grown .mapEntry t) :
    ∃ sp key a, t = .node .mapEntry sp [key, a] ∧ grammar.Grown .expression a := by
  obtain ⟨sp, key, a, rfl, -, value⟩ := grown_mapEntry_keyed grown
  exact ⟨sp, key, a, rfl, value⟩

theorem grown_mapKey (grown : grammar.Grown .mapKey t) :
    ∃ sp a, t = .node .mapKey sp [a]
      ∧ (grammar.Grown .keyIdent a ∨ grammar.Grown .stringLiteral a) := by
  obtain ⟨sp, ts, rfl, given⟩ := shape_of_grown rfl grown
  change (Peg.alt _ _).Gives _ _ at given
  simp only [gives_alt, gives_rule] at given
  obtain ⟨a, rfl, word⟩ | ⟨a, rfl, quoted⟩ := given
  · exact ⟨sp, a, rfl, .inl word⟩
  · exact ⟨sp, a, rfl, .inr quoted⟩

end Expressions

section Statements

variable {t : Build.Node} {r : Rule}

theorem grown_statement (grown : grammar.Grown .statement t) :
    ∃ sp r a, t = .node .statement sp [a] ∧ grammar.Grown r a
      ∧ r ∈ [Rule.classDecl, .letStmt, .getStmt, .ifStmt, .foreachStmt, .forStmt, .assignStmt] := by
  obtain ⟨sp, ts, rfl, given⟩ := shape_of_grown rfl grown
  obtain ⟨r, member, a, rfl, inner⟩ := gives_first given
  exact ⟨sp, r, a, rfl, inner, member⟩

theorem grown_block (grown : grammar.Grown .block t) :
    ∃ sp ts, t = .node .block sp ts ∧ ∀ a ∈ ts, grammar.Grown .statement a := by
  obtain ⟨sp, ts, rfl, given⟩ := shape_of_grown rfl grown
  exact ⟨sp, ts, rfl, (gives_star_rule .statement).mp given⟩

theorem grown_elseClause (grown : grammar.Grown .elseClause t) :
    ∃ sp a, t = .node .elseClause sp [a] ∧ grammar.Grown .block a :=
  grown_enclosed rfl (fun ts given => by
    change (Peg.all _).Gives _ _ at given
    simpa [Peg.all] using given) grown

theorem grown_getStmt (grown : grammar.Grown .getStmt t) :
    ∃ sp a, t = .node .getStmt sp [a] ∧ grammar.Grown .expression a :=
  grown_enclosed rfl (fun ts given => by
    change (Peg.all _).Gives _ _ at given
    simpa [Peg.all] using given) grown

theorem grown_letStmt (grown : grammar.Grown .letStmt t) :
    ∃ sp name a, t = .node .letStmt sp [name, a] ∧ grammar.Grown .identifier name
      ∧ grammar.Grown .expression a := by
  obtain ⟨sp, ts, rfl, given⟩ := shape_of_grown rfl grown
  change (Peg.all _).Gives _ _ at given
  simp only [Peg.all, gives_seq, gives_rule, gives_word, gives_wholeWord] at given
  obtain ⟨_, _, rfl, rfl, _, _, rfl, ⟨name, rfl, first⟩, _, _, rfl, rfl, _, _, rfl,
    ⟨a, rfl, second⟩, rfl⟩ := given
  exact ⟨sp, name, a, rfl, first, second⟩

theorem grown_assignStmt (grown : grammar.Grown .assignStmt t) :
    ∃ sp name path a, t = .node .assignStmt sp (name :: (path ++ [a]))
      ∧ grammar.Grown .identifier name ∧ grammar.Grown .expression a
      ∧ ∀ s ∈ path, grammar.Grown .fieldSegment s ∨ grammar.Grown .indexSegment s := by
  obtain ⟨sp, ts, rfl, given⟩ := shape_of_grown rfl grown
  change (Peg.all _).Gives _ _ at given
  simp only [Peg.all, gives_seq, gives_rule, gives_word, gives_star_segment] at given
  obtain ⟨_, _, rfl, ⟨name, rfl, first⟩, path, _, rfl, steps, _, _, rfl, rfl, _, _, rfl,
    ⟨a, rfl, value⟩, rfl⟩ := given
  exact ⟨sp, name, path, a, rfl, first, value, steps⟩

theorem grown_ifStmt (grown : grammar.Grown .ifStmt t) :
    ∃ sp a b ts, t = .node .ifStmt sp (a :: b :: ts) ∧ grammar.Grown .expression a
      ∧ grammar.Grown .block b ∧ (ts = [] ∨ ∃ c, ts = [c] ∧ grammar.Grown .elseClause c) := by
  obtain ⟨sp, ts, rfl, given⟩ := shape_of_grown rfl grown
  change (Peg.all _).Gives _ _ at given
  simp only [Peg.all, gives_seq, gives_rule, gives_word, gives_wholeWord, gives_opt,
    or_self] at given
  obtain ⟨_, _, rfl, rfl, _, _, rfl, ⟨a, rfl, condition⟩, _, _, rfl, rfl, _, _, rfl, rfl, _, _, rfl,
    ⟨b, rfl, block⟩, us, _, rfl, rest, _, _, rfl, rfl, rfl⟩ := given
  exact ⟨sp, a, b, us, by simp, condition, block, rest⟩

theorem grown_foreachStmt (grown : grammar.Grown .foreachStmt t) :
    ∃ sp item keys a b, t = .node .foreachStmt sp (item :: (keys ++ [a, b]))
      ∧ grammar.Grown .identifier item
      ∧ (keys = [] ∨ ∃ key, keys = [key] ∧ grammar.Grown .identifier key)
      ∧ grammar.Grown .expression a ∧ grammar.Grown .block b := by
  obtain ⟨sp, ts, rfl, given⟩ := shape_of_grown rfl grown
  change (Peg.all _).Gives _ _ at given
  simp only [Peg.all, gives_seq, gives_rule, gives_word, gives_wholeWord, gives_opt,
    or_self] at given
  obtain ⟨_, _, rfl, rfl, _, _, rfl, ⟨item, rfl, name⟩, keys, _, rfl, place, _, _, rfl, rfl, _, _, rfl,
    ⟨a, rfl, collection⟩, _, _, rfl, rfl, _, _, rfl, rfl, _, _, rfl, ⟨b, rfl, block⟩, _, _, rfl, rfl,
    rfl⟩ := given
  refine ⟨sp, item, keys, a, b, by simp, name, place.imp id ?_, collection, block⟩
  rintro ⟨_, _, rfl, rfl, key, rfl, holds⟩
  exact ⟨key, rfl, holds⟩

theorem grown_forStmt (grown : grammar.Grown .forStmt t) :
    ∃ sp name a b, t = .node .forStmt sp [name, a, b] ∧ grammar.Grown .identifier name
      ∧ grammar.Grown .expression a ∧ grammar.Grown .block b := by
  obtain ⟨sp, ts, rfl, given⟩ := shape_of_grown rfl grown
  change (Peg.all _).Gives _ _ at given
  simp only [Peg.all, gives_seq, gives_rule, gives_word, gives_wholeWord, gives_opt,
    or_self] at given
  obtain ⟨_, _, rfl, rfl, _, _, rfl, ⟨name, rfl, first⟩, _, _, rfl, rfl, _, _, rfl, ⟨a, rfl, condition⟩,
    _, _, rfl, rfl, _, _, rfl, rfl, _, _, rfl, ⟨b, rfl, block⟩, _, _, rfl, rfl, rfl⟩ := given
  exact ⟨sp, name, a, b, rfl, first, condition, block⟩

theorem gives_classEnd {G : Rule → Build.Node → Prop} {ts : List Build.Node} :
    classEnd.Gives G ts ↔ ts = [] := by
  simp [classEnd, Peg.all]

theorem grown_classDecl (grown : grammar.Grown .classDecl t) :
    ∃ sp name ts, t = .node .classDecl sp (name :: ts) ∧ grammar.Grown .identifier name
      ∧ ∀ f ∈ ts, grammar.Grown .fieldDecl f := by
  obtain ⟨sp, ts, rfl, given⟩ := shape_of_grown rfl grown
  change (Peg.all _).Gives _ _ at given
  simp only [Peg.all, gives_seq, gives_rule, gives_word, gives_wholeWord, gives_star_rule,
    gives_classEnd] at given
  obtain ⟨_, _, rfl, rfl, _, _, rfl, ⟨name, rfl, first⟩, _, _, rfl, rfl, us, _, rfl, fields,
    rfl⟩ := given
  exact ⟨sp, name, us, by simp, first, fields⟩

/-- The type and the mark of a field stand behind its default, in this order. -/
theorem grown_fieldDecl (grown : grammar.Grown .fieldDecl t) :
    ∃ sp name a types marks, t = .node .fieldDecl sp (name :: a :: (types ++ marks))
      ∧ grammar.Grown .keyIdent name ∧ grammar.Grown .arithExpr a
      ∧ (types = [] ∨ ∃ b, types = [b] ∧ grammar.Grown .typeSuffix b)
      ∧ (marks = [] ∨ ∃ m, marks = [m] ∧ grammar.Grown .overwriteModifier m) := by
  obtain ⟨sp, ts, rfl, given⟩ := shape_of_grown rfl grown
  change (Peg.all _).Gives _ _ at given
  simp only [Peg.all, gives_seq, gives_rule, gives_word, gives_opt] at given
  obtain ⟨_, _, rfl, rfl, _, _, rfl, ⟨name, rfl, first⟩, _, _, rfl, rfl, _, _, rfl, ⟨a, rfl, value⟩,
    types, _, rfl, typed, marks, _, rfl, marked, rfl⟩ := given
  exact ⟨sp, name, a, types, marks, by simp, first, value, typed, marked⟩

end Statements

section Words

variable {t : Build.Node}

theorem textUpTo_behindWord (c : Cursor) : c.textUpTo (behindWord c) = leading c.rest :=
  (Cursor.past_reads (leading_split c.rest).1).textUpTo

theorem matched_identifier {c d : Cursor}
    (settles : grammar.Settles true (.rule .identifier) c (.matched [t] d)) :
    ∃ sp, t = .leaf .identifier sp (leading c.rest) ∧ isName (leading c.rest) = true := by
  obtain ⟨us, gathered, inner⟩ := settles.matched_body
  cases gathered
  by_cases name : isName (leading c.rest) = true
  · cases inner.unique (settles_identifier name)
    exact ⟨_, by rw [textUpTo_behindWord], name⟩
  · cases inner.unique (settles_identifier_refused (by simpa using name))

theorem matched_keyIdent {c d : Cursor}
    (settles : grammar.Settles true (.rule .keyIdent) c (.matched [t] d)) :
    ∃ sp, t = .leaf .keyIdent sp (leading c.rest) ∧ d = behindWord c
      ∧ isWord (leading c.rest) = true := by
  obtain ⟨us, gathered, inner⟩ := settles.matched_body
  cases gathered
  by_cases word : isWord (leading c.rest) = true
  · cases inner.unique (settles_keyIdent word)
    exact ⟨_, by rw [textUpTo_behindWord], rfl, word⟩
  · cases inner.unique (settles_keyIdent_refused (by simpa using word))

theorem grown_identifier (grown : grammar.Grown .identifier t) :
    ∃ sp w, t = .leaf .identifier sp w ∧ isName w = true := by
  obtain ⟨c, d, -, settles⟩ := grown
  obtain ⟨sp, rfl, name⟩ := matched_identifier settles
  exact ⟨sp, _, rfl, name⟩

theorem grown_keyIdent (grown : grammar.Grown .keyIdent t) :
    ∃ sp w, t = .leaf .keyIdent sp w ∧ isWord w = true := by
  obtain ⟨c, d, -, settles⟩ := grown
  obtain ⟨sp, rfl, -, word⟩ := matched_keyIdent settles
  exact ⟨sp, _, rfl, word⟩

end Words

end Dil.Reading
