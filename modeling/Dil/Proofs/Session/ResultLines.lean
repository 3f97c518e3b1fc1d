import Dil.Command
import Dil.Proofs.Reading.Mentions
import Dil.Proofs.Session.Names

namespace Dil

theorem isWordChar_unbroken {c : Char} (inside : Rule.isWordChar c = true) : c ≠ '\n' ∧ c ≠ '\r' := by
  constructor
  all_goals
    rintro rfl
    revert inside
    decide

theorem oneLine_of_isWord {w : String} (word : Reading.isWord w.toList = true) : OneLine w :=
  fun _ member => isWordChar_unbroken (Reading.isWordChar_of_mem word member)

section Runs

variable {rounds : Nat} {sink : Sink} {s : Session} {program : Program} {source file : String}
  {depth : Nat}

theorem Exec.BlockOffers.names {o : Offer}
    (offer : Exec.BlockOffers rounds sink program.statements ⟨s, []⟩ o) :
    ∀ name ∈ o.emission.shown.names,
      s.Mentions name ∨ ∃ m ∈ program.mentions, m.name = name := by
  refine Exec.blockOffer_named offer (fun m member => Or.inr ⟨m, member, rfl⟩) ⟨?_, nofun⟩
  exact Session.named_mentions fun name mentioned => Or.inl mentioned

theorem perform_run (read : readProgram source = .ok program) :
    ((Command.run file .text depth).perform (some source)).output
      = String.join (((Session.new.run manyRounds (.accepting depth) program).emissions.map
          fun e => e.shown.text).map (· ++ "\n")) := by
  simp only [Command.perform, Reply.ofSource, read, Reply.ofReport, Reply.lines, Format.render]

theorem text_oneLine_iff_keys (read : readProgram source = .ok program) :
    ∀ e ∈ (Session.new.run rounds sink program).emissions, OneLine e.shown.text ↔
      ∀ key ∈ e.shown.names, .key key ∈ program.mentions → OneLine key := by
  intro e emitted
  have named := Session.emission_named (P := fun name => ∃ m ∈ program.mentions, m.name = name)
    Session.new_named (fun m member => ⟨m, member, rfl⟩) e emitted
  rw [text_oneLine_iff]
  refine ⟨fun each key inside _ => each key inside, fun keys name inside => ?_⟩
  obtain ⟨m, member, rfl⟩ := named name inside
  cases m with
  | word w => exact oneLine_of_isWord (Reading.worded_program read w member)
  | key k => exact keys k inside member

/-- The text of a value that a `Get` hands out has no line end exactly if no name in it has one, and each
of its names is in the session or in the script. The words of a script that was read have none, so in a
new session it is a key of a map literal that breaks a text. The lines that are printed for a script are
its results, one for each, exactly if no result has a line feed, which is so if no key has a line end. -/
theorem results_keep_their_lines (program : Program) :
    (∀ (rounds : Nat) (sink : Sink) (s : Session) (o : Offer),
      Exec.BlockOffers rounds sink program.statements ⟨s, []⟩ o →
      (OneLine o.emission.shown.text ↔ ∀ name ∈ o.emission.shown.names, OneLine name) ∧
      ∀ name ∈ o.emission.shown.names, s.Mentions name ∨ ∃ m ∈ program.mentions, m.name = name) ∧
    ∀ source, readProgram source = .ok program →
      (∀ w, .word w ∈ program.mentions → OneLine w) ∧
      ∀ (file : String) (depth : Nat),
        let emissions := (Session.new.run manyRounds (.accepting depth) program).emissions
        let texts := emissions.map fun e => e.shown.text
        let output := ((Command.run file .text depth).perform (some source)).output
        (∀ e ∈ emissions, OneLine e.shown.text ↔
          ∀ key ∈ e.shown.names, .key key ∈ program.mentions → OneLine key) ∧
        (outputLines output = texts ↔ ∀ t ∈ texts, '\n' ∉ t.toList) ∧
        ((∀ key, .key key ∈ program.mentions → OneLine key) →
          (∀ t ∈ texts, OneLine t) ∧ outputLines output = texts) := by
  constructor
  · intro rounds sink s o offer
    exact ⟨text_oneLine_iff _, offer.names⟩
  · intro source read
    refine ⟨fun w member => oneLine_of_isWord (Reading.worded_program read w member), ?_⟩
    intro file depth emissions texts output
    have each : ∀ e ∈ emissions, OneLine e.shown.text ↔
        ∀ key ∈ e.shown.names, .key key ∈ program.mentions → OneLine key :=
      text_oneLine_iff_keys read
    have lines : outputLines output = texts ↔ ∀ t ∈ texts, '\n' ∉ t.toList := by
      rw [show output = _ from perform_run read]
      exact outputLines_iff
    refine ⟨each, lines, fun keys => ?_⟩
    have whole : ∀ t ∈ texts, OneLine t :=
      List.forall_mem_map.mpr fun e emitted => (each e emitted).mpr fun key _ => keys key
    exact ⟨whole, lines.mpr fun t among fed => (whole t among '\n' fed).1 rfl⟩

end Runs

def twoLineKey : Program :=
  ⟨[.get ⟨0, 16⟩ (.map ⟨4, 15⟩ [.mk ⟨"a\nb", ⟨5, 11⟩⟩ (.int ⟨13, 14⟩ 1)])], ⟨0, 16⟩⟩

theorem key_breaks_line_text_does_not :
    let printed (source : String) := outputLines ((Command.run "" .text 8).perform (some source)).output
    let texts (p : Program) :=
      (Session.new.run manyRounds (.accepting 8) p).emissions.map fun e => e.shown.text
    let broken := "Get \x7b\"a\\nb\": 1\x7d;"
    let kept := "class p: x: \x7b\"a b\": \"\\n\"\x7d; class: end Get p:new; Get \"\\r\";"
    (∃ o, Exec.BlockOffers 1 (.accepting 1) twoLineKey.statements ⟨.new, []⟩ o ∧
      ¬ OneLine o.emission.shown.text ∧ ∃ m ∈ twoLineKey.mentions, m.name = "a\nb") ∧
    (∃ p, readProgram broken = .ok p ∧ texts p = ["\x7ba\nb: 1\x7d"] ∧ printed broken ≠ texts p) ∧
    ∃ p, readProgram kept = .ok p ∧ printed kept = ["p \x7bx: \x7ba b: \"\\n\"\x7d\x7d", "\"\\r\""] := by
  intro printed texts broken kept
  refine ⟨?_, ?_, ?_⟩
  · have offer : Exec.BlockOffers 1 (.accepting 1) twoLineKey.statements ⟨.new, []⟩ _ :=
      .first (.get rfl)
    obtain ⟨whole, mentioned⟩ := (results_keep_their_lines twoLineKey).1 _ _ _ _ offer
    have there := mentioned "a\nb" List.mem_cons_self
    refine ⟨_, offer, ?_, there.resolve_left ?_⟩
    · rw [whole]
      decide
    · rintro (⟨r, c, found, -⟩ | ⟨c, among, -⟩)
      · exact absurd (Heap.cell_inRange found) (Heap.empty_out_of_range r)
      · exact List.not_mem_nil among
  · have evaluated : (readProgram broken).toOption.map texts = some ["\x7ba\nb: 1\x7d"] := by
      decide +kernel
    cases read : readProgram broken with
    | error e =>
        rw [read] at evaluated
        cases evaluated
    | ok p =>
        rw [read] at evaluated
        have found := Option.some.inj evaluated
        obtain ⟨-, runs⟩ := (results_keep_their_lines p).2 broken read
        refine ⟨p, rfl, found, fun same => ?_⟩
        have unfed := (runs "" 8).2.1.mp same
        change ∀ t ∈ texts p, _ at unfed
        rw [found] at unfed
        revert unfed
        decide
  · have evaluated : ((readProgram kept).toOption.map fun p =>
        (texts p, decide (∀ m ∈ p.mentions, OneLine m.name))) =
        some (["p \x7bx: \x7ba b: \"\\n\"\x7d\x7d", "\"\\r\""], true) := by
      decide +kernel
    cases read : readProgram kept with
    | error e =>
        rw [read] at evaluated
        cases evaluated
    | ok p =>
        rw [read] at evaluated
        obtain ⟨found, mentions⟩ := Prod.mk.inj (Option.some.inj evaluated)
        obtain ⟨-, runs⟩ := (results_keep_their_lines p).2 kept read
        have lines := (runs "" 8).2.2 fun key member => of_decide_eq_true mentions _ member
        exact ⟨p, rfl, lines.2.trans found⟩

end Dil
