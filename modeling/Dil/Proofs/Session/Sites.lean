import Dil.Proofs.Reading.Trees
import Dil.Proofs.Session.Atomicity
import Dil.Proofs.Syntax.Nested

/-!
The places where a script can fail. A branch or a loop does nothing by itself but to test its condition
or to take the entries of its collection; all else is done by the statements without statements inside.
In a script that was read, none of these starts where a statement around it does.
-/

namespace Dil

/-- What a run does by itself. -/
inductive Task where
  | leaf (s : Stmt) (isLeaf : s.IsLeaf)
  | test (condition : Expr)
  | collect (collection : Expr)

def Task.span : Task → Span
  | .leaf s _ => s.span
  | .test c => c.span
  | .collect e => e.span

/-- A task of a script with the statements around it, the innermost first. -/
structure Site where
  task : Task
  around : List Stmt

mutual

/-- The tasks of a statement, inside of others. -/
def Stmt.sites (around : List Stmt) : Stmt → List Site
  | .declare sp d => [⟨.leaf (.declare sp d) trivial, around⟩]
  | .bind sp name e => [⟨.leaf (.bind sp name e) trivial, around⟩]
  | .assign sp target path e => [⟨.leaf (.assign sp target path e) trivial, around⟩]
  | .get sp e => [⟨.leaf (.get sp e) trivial, around⟩]
  | .branch sp c onTrue onFalse =>
    let inside := .branch sp c onTrue onFalse :: around
    ⟨.test c, inside⟩ :: (Stmt.blockSites inside onTrue ++ Stmt.blockSites inside onFalse)
  | .each sp item key e body =>
    let inside := .each sp item key e body :: around
    ⟨.collect e, inside⟩ :: Stmt.blockSites inside body
  | .loop sp counter c body =>
    let inside := .loop sp counter c body :: around
    ⟨.test c, inside⟩ :: Stmt.blockSites inside body

def Stmt.blockSites (around : List Stmt) : List Stmt → List Site
  | [] => []
  | s :: ss => s.sites around ++ Stmt.blockSites around ss

end

def Program.sites (p : Program) : List Site := Stmt.blockSites [] p.statements

mutual

def Stmt.Led : Stmt → Prop
  | .declare .. | .bind .. | .assign .. | .get .. => True
  | .branch sp c onTrue onFalse => sp.start < c.span.start ∧ Stmt.BlockLed onTrue ∧ Stmt.BlockLed onFalse
  | .each _ _ _ _ body | .loop _ _ _ body => Stmt.BlockLed body

def Stmt.BlockLed : List Stmt → Prop
  | [] => True
  | s :: ss => s.Led ∧ Stmt.BlockLed ss

end

namespace Build

section Led

variable {source : String} {t : Node} {ts : List Node} {c d : Cursor} {r : Rule} {sp : Span}

theorem condition_led {e : Expr} (sited : Sited source (.node .ifStmt sp (t :: ts)) c d)
    (built : expr t = .ok e) : c.offset < e.span.start := by
  obtain ⟨us, same, inner⟩ := sited.found.matched_node rfl
  cases same
  obtain ⟨vs, f, ws, word, rest, split⟩ := inner.matched_seq
  have none : vs = [] := by
    simpa using word.gives Layout.skip_skip rfl (.inl sited.still) rfl
  obtain ⟨s, reads, some⟩ := reads_of_matched word
  obtain ⟨_, gap⟩ := Layout.skip_reads f
  subst none
  cases split
  obtain ⟨before, ahead⟩ := sited.inside
  have row := rest.row grammar_bounded.forward Layout.skip_skip rfl (.inl (Layout.skip_skip _)) rfl
  obtain ⟨a, b, behind, sited', -⟩ := row_cons ⟨_, (ahead.trans reads).trans gap⟩ row
  have start := ((nested source t).expr sited' built).one.2.1
  have letters : 0 < s.length := Nat.lt_of_lt_of_le (by decide) some
  have first : 0 < byteLength s := byteLength_pos (List.length_pos_iff.mp letters)
  have := reads.offset
  have := gap.offset
  rw [Expr.nest_span] at start
  omega

theorem row_each (inside : c.In source) (row : grammar.Row c ts d) : ∀ t ∈ ts, ∃ e f, Sited source t e f := by
  induction ts generalizing c with
  | nil => nofun
  | cons t ts ih =>
      obtain ⟨e, f, -, sited, inside', others⟩ := row_cons inside row
      exact List.forall_mem_cons.mpr ⟨⟨e, f, sited⟩, ih inside' others⟩

structure LedTree (source : String) (t : Node) : Prop where
  statement {c d : Cursor} {s : Stmt} (sited : Sited source t c d) (built : statement t = .ok s) : s.Led
  construct {c d : Cursor} {s : Stmt} (sited : Sited source t c d)
    (built : construct (c.spanTo d) t = .ok s) : s.Led
  block {c d : Cursor} {ss : List Stmt} (sited : Sited source t c d) (built : block t = .ok ss) :
    Stmt.BlockLed ss
  otherwise {sp : Span} {u : Node} {c d : Cursor} {ss : List Stmt} (same : t = .node .elseClause sp [u])
    (sited : Sited source t c d) (built : Build.block u = .ok ss) : Stmt.BlockLed ss

theorem construct_led {s : Stmt} (each : ∀ t ∈ ts, LedTree source t)
    (sited : Sited source (.node r sp ts) c d) (built : construct (c.spanTo d) (.node r sp ts) = .ok s) :
    s.Led := by
  have below (spaced : Rule.kind r = .spaced) := row_each sited.inside (sited.below spaced)
  unfold construct at built
  split at built
  · obtain ⟨_, -, done⟩ := bind_eq_ok_iff.mp built
    cases done
    trivial
  · obtain ⟨_, -, built⟩ := bind_eq_ok_iff.mp built
    obtain ⟨_, -, done⟩ := bind_eq_ok_iff.mp built
    cases done
    trivial
  · obtain ⟨_, -, done⟩ := bind_eq_ok_iff.mp built
    cases done
    trivial
  · obtain ⟨_, -, built⟩ := bind_eq_ok_iff.mp built
    obtain ⟨⟨_, _⟩, -, done⟩ := bind_eq_ok_iff.mp built
    cases done
    trivial
  · rename_i same
    cases same
    obtain ⟨e, value, built⟩ := bind_eq_ok_iff.mp built
    obtain ⟨yes, onTrue, done⟩ := bind_eq_ok_iff.mp built
    cases done
    obtain ⟨_, _, first⟩ := below rfl _ (.tail _ List.mem_cons_self)
    exact ⟨condition_led sited value, (each _ (by simp)).block first onTrue, trivial⟩
  · rename_i same
    cases same
    obtain ⟨e, value, built⟩ := bind_eq_ok_iff.mp built
    obtain ⟨yes, onTrue, built⟩ := bind_eq_ok_iff.mp built
    obtain ⟨no, onFalse, done⟩ := bind_eq_ok_iff.mp built
    cases done
    obtain ⟨_, _, first⟩ := below rfl _ (.tail _ List.mem_cons_self)
    obtain ⟨_, _, second⟩ := below rfl _ (.tail _ (.tail _ List.mem_cons_self))
    exact ⟨condition_led sited value, (each _ (by simp)).block first onTrue,
      (each (.node .elseClause _ _) (by simp)).otherwise rfl second onFalse⟩
  · rename_i same
    cases same
    obtain ⟨_, -, built⟩ := bind_eq_ok_iff.mp built
    obtain ⟨_, -, built⟩ := bind_eq_ok_iff.mp built
    obtain ⟨body, inner, done⟩ := bind_eq_ok_iff.mp built
    cases done
    obtain ⟨_, _, last⟩ := below rfl _ (.tail _ (.tail _ List.mem_cons_self))
    exact (each _ (by simp)).block last inner
  · rename_i same
    cases same
    obtain ⟨_, -, built⟩ := bind_eq_ok_iff.mp built
    obtain ⟨_, -, built⟩ := bind_eq_ok_iff.mp built
    obtain ⟨_, -, built⟩ := bind_eq_ok_iff.mp built
    obtain ⟨body, inner, done⟩ := bind_eq_ok_iff.mp built
    cases done
    obtain ⟨_, _, last⟩ := below rfl _ (.tail _ (.tail _ (.tail _ List.mem_cons_self)))
    exact (each _ (by simp)).block last inner
  · rename_i same
    cases same
    obtain ⟨_, -, built⟩ := bind_eq_ok_iff.mp built
    obtain ⟨_, -, built⟩ := bind_eq_ok_iff.mp built
    obtain ⟨body, inner, done⟩ := bind_eq_ok_iff.mp built
    cases done
    obtain ⟨_, _, last⟩ := below rfl _ (.tail _ (.tail _ List.mem_cons_self))
    exact (each _ (by simp)).block last inner
  · cases built

theorem statements_led {ss : List Stmt} (each : ∀ t ∈ ts, LedTree source t)
    (sited : ∀ t ∈ ts, ∃ c d, Sited source t c d) (built : statements ts = .ok ss) :
    Stmt.BlockLed ss := by
  induction ts generalizing ss with
  | nil =>
      cases built
      trivial
  | cons t ts ih =>
      rw [List.forall_mem_cons] at each sited
      obtain ⟨s, here, built⟩ := bind_eq_ok_iff.mp built
      obtain ⟨ss', rest, done⟩ := bind_eq_ok_iff.mp built
      cases done
      obtain ⟨_, _, first⟩ := sited.1
      exact ⟨each.1.statement first here, ih each.2 sited.2 rest⟩

theorem ledTree (source : String) (t : Node) : LedTree source t := by
  induction t using Tree.induct with
  | step t each =>
      cases t with
      | leaf r sp text =>
          refine ⟨fun _ built => ?_, fun _ built => ?_, fun _ built => ?_, nofun⟩
          all_goals cases built
      | node r sp ts =>
          refine ⟨fun sited built => ?_, construct_led each, fun sited built => ?_, ?_⟩
          · cases sited.node_place
            unfold Build.statement at built
            split at built
            · rename_i same
              cases same
              exact (each _ (by simp)).construct (sited.choice _ _ rfl rfl) built
            · cases built
          · unfold Build.block at built
            split at built
            · rename_i same
              cases same
              exact statements_led each (row_each sited.inside (sited.below rfl)) built
            · cases built
          · rintro _ u c d ss ⟨⟩ sited built
            obtain ⟨_, _, inner⟩ := row_each sited.inside (sited.below rfl) u List.mem_cons_self
            exact (each u List.mem_cons_self).block inner built

end Led

end Build

theorem program_led {source : String} {p : Program} (read : readProgram source = .ok p) :
    Stmt.BlockLed p.statements := by
  obtain ⟨t, d, settles, built⟩ := readAs_eq_ok_iff.mp read
  obtain ⟨s, ts, e, rfl, inside, row, -⟩ := program_row settles
  rw [Build.program, List.dropLast_concat] at built
  obtain ⟨ss, found, done⟩ := bind_eq_ok_iff.mp built
  cases done
  exact Build.statements_led (fun t _ => Build.ledTree source t) (Build.row_each inside row) found

def Site.Inner (x : Site) : Prop := ∀ s ∈ x.around, s.span.start < x.task.span.start

section Inner

variable {source : String} {around : List Stmt}

theorem Nest.Sound.behind_first {n : Nest} {sp : Span} {label : Label} {ms : List Nest}
    (sound : Nest.Sound source (.mk sp label (n :: ms))) :
    ∀ m ∈ ms, m.Sound source ∧ sp.start < m.span.start := by
  cases sound with
  | mk _ _ _ within ordered each =>
      intro m member
      have ahead := (within n List.mem_cons_self).1
      have some := (each n List.mem_cons_self).some
      have behind := (List.pairwise_cons.mp ordered).1 m member
      exact ⟨each m (.tail _ member), by omega⟩

theorem around_cons {s : Stmt} {start : Nat} (outer : ∀ t ∈ around, t.span.start < s.span.start)
    (here : s.span.start < start) : ∀ t ∈ s :: around, t.span.start < start :=
  List.forall_mem_cons.mpr ⟨here, fun t member => Nat.lt_trans (outer t member) here⟩

theorem inside_block {s : Stmt} {ss : List Stmt} (outer : ∀ t ∈ around, t.span.start < s.span.start)
    (parts : ∀ n ∈ Stmt.blockNests ss, n.Sound source ∧ s.span.start < n.span.start) :
    ∀ t ∈ ss, t.nest.Sound source ∧ ∀ u ∈ s :: around, u.span.start < t.span.start := by
  rw [Stmt.blockNests_eq, List.forall_mem_map] at parts
  intro t member
  obtain ⟨sound, behind⟩ := parts t member
  exact ⟨sound, around_cons outer (t.nest_span ▸ behind)⟩

-- On the way in, all statements around start before the next one inside.
mutual

theorem sites_inner (around : List Stmt) : ∀ s : Stmt, s.nest.Sound source → s.Led →
    (∀ t ∈ around, t.span.start < s.span.start) → ∀ x ∈ s.sites around, x.Inner
  | .declare .., _, _, outer | .bind .., _, _, outer | .assign .., _, _, outer | .get .., _, _, outer => by
      rw [Stmt.sites]
      exact List.forall_mem_singleton.mpr outer
  | .branch sp c onTrue onFalse, sound, led, outer => by
      obtain ⟨first, yes, no⟩ := led
      have parts := List.forall_mem_append.mp sound.behind_first
      have tested : Site.Inner ⟨.test c, .branch sp c onTrue onFalse :: around⟩ := around_cons outer first
      rw [Stmt.sites]
      refine List.forall_mem_cons.mpr ⟨tested, List.forall_mem_append.mpr ⟨?_, ?_⟩⟩
      · exact blockSites_inner _ onTrue (inside_block outer parts.1) yes
      · exact blockSites_inner _ onFalse (inside_block outer parts.2) no
  | .each sp item key e body, sound, led, outer => by
      obtain ⟨collection, parts⟩ := List.forall_mem_cons.mp (List.forall_mem_append.mp sound.behind_first).2
      rw [e.nest_span] at collection
      have collected : Site.Inner ⟨.collect e, .each sp item key e body :: around⟩ :=
        around_cons outer collection.2
      rw [Stmt.sites]
      exact List.forall_mem_cons.mpr ⟨collected, blockSites_inner _ body (inside_block outer parts) led⟩
  | .loop sp counter c body, sound, led, outer => by
      obtain ⟨condition, parts⟩ := List.forall_mem_cons.mp sound.behind_first
      rw [c.nest_span] at condition
      have tested : Site.Inner ⟨.test c, .loop sp counter c body :: around⟩ :=
        around_cons outer condition.2
      rw [Stmt.sites]
      exact List.forall_mem_cons.mpr ⟨tested, blockSites_inner _ body (inside_block outer parts) led⟩

theorem blockSites_inner (around : List Stmt) : ∀ ss : List Stmt,
    (∀ s ∈ ss, s.nest.Sound source ∧ ∀ t ∈ around, t.span.start < s.span.start) → Stmt.BlockLed ss →
    ∀ x ∈ Stmt.blockSites around ss, x.Inner
  | [], _, _ => nofun
  | s :: ss, each, led => by
      obtain ⟨⟨sound, outer⟩, others⟩ := List.forall_mem_cons.mp each
      exact List.forall_mem_append.mpr
        ⟨sites_inner around s sound led.1 outer, blockSites_inner around ss others led.2⟩

end

/-- In a script that was read, no task starts where a statement around it does. -/
theorem program_inner {p : Program} (read : readProgram source = .ok p) : ∀ x ∈ p.sites, x.Inner := by
  obtain ⟨t, d, settles, built⟩ := readAs_eq_ok_iff.mp read
  have sound := program_nested settles built
  exact blockSites_inner [] p.statements (fun s member => ⟨sound.each s member, nofun⟩) (program_led read)

end Inner

end Dil
