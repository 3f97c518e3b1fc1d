import Dil.Proofs.Reading.Fields
import Dil.Proofs.Seam.Locality

/-!
With which word and which character a match can start, where that can be told from the grammar alone.
A part is refused before all that starts otherwise, and before all whose starts it refuses.
-/

namespace Dil.Seam

open Reading (leading glance glance_holds glanceDepth)
open Rule (Part spellings isWordChar)

abbrev Start := List Char × Option Char

def startOf (q : Cursor) : Start := (leading q.rest, q.rest.head?)

def spelled (s : String) : Start := (s.toList, s.toList.head?)

/-- The starts of a part that something with the given starts follows, if they are known. -/
def starts : Nat → Option (List Start) → Part → Option (List Start)
  | 0, _, _ => none
  | n + 1, after, p =>
    match p with
    | .text (x :: _) => if isWordChar x then none else some [([], some x)]
    | .rule r => starts n none (Rule.body r)
    | .seq (.ahead (.rule kw)) _ =>
      if (spellings kw).isEmpty then none else some ((spellings kw).map spelled)
    | .seq a b => starts n (starts n after b) a
    | .alt a b => do .some ((← starts n after a) ++ (← starts n after b))
    | .opt a => do .some ((← starts n after a) ++ (← after))
    | .star a => do .some ((← starts n none a) ++ (← after))
    | _ => none

section Sound

variable {p a b : Part} {F : Next} {q d : Cursor} {ts : List (Tree Rule)} {L : List Start}
  {spaced : Bool}

def Known (L? : Option (List Start)) (q : Cursor) : Prop := ∀ L, L? = some L → startOf q ∈ L

theorem known_none : Known none q := nofun

theorem skipIf_skipIf (spaced : Bool) (c : Cursor) :
    grammar.skipIf spaced (grammar.skipIf spaced c) = grammar.skipIf spaced c := by
  cases spaced with
  | true => exact Layout.skip_skip c
  | false => rfl

theorem stay_inside (kind : RuleKind) (stay : grammar.skipIf spaced q = q) :
    grammar.skipIf (kind.spacing spaced) q = q := by
  cases kind with
  | spaced => exact stay
  | joined | token => rfl

theorem stay_of_still (still : Layout.skip q = q) : grammar.skipIf true q = q := still

theorem startOf_of_text {x : Char} {xs : List Char} (other : isWordChar x = false)
    (settles : grammar.Settles spaced (.text (x :: xs)) q (.matched ts d)) :
    startOf q = ([], some x) := by
  have read : q.rest = x :: xs ++ d.rest := Relayout.matched_text settles
  simp [startOf, leading, read, other]

theorem startOf_of_leading {ss : List String} (spelt : Reading.areSpellings ss = true)
    (word : leading q.rest ∈ ss.map String.toList) : startOf q ∈ ss.map spelled := by
  obtain ⟨s, member, leads⟩ := List.mem_map.mp word
  refine List.mem_map.mpr ⟨s, member, ?_⟩
  have isWord := Reading.isWord_of_spelling spelt member
  have head : s.toList.head? = q.rest.head? := by
    rw [(Reading.leading_split q.rest).1, ← leads]
    cases found : s.toList with
    | nil => simp [found, Reading.isWord] at isWord
    | cons x xs => rfl
  rw [spelled, startOf, leads, ← leads, head]

theorem startOf_of_keyword {kw : Rule} (some : (spellings kw).isEmpty = false)
    (settles : grammar.Settles spaced (.ahead (.rule kw)) q (.matched ts d)) :
    startOf q ∈ (spellings kw).map spelled := by
  apply startOf_of_leading (Reading.spellings_areSpellings kw)
  by_contra other
  cases settles with
  | ahead inner => cases inner.unique (Reading.keyword_refused some other)

/-- What comes next starts as the grammar says. -/
theorem starts_sound (n : Nat) {after : Option (List Start)} (stay : grammar.skipIf spaced q = q)
    (settles : grammar.Settles spaced p q (.matched ts d))
    (next : Known after (grammar.skipIf spaced d)) : Known (starts n after p) q := by
  induction n generalizing after spaced p q d ts with
  | zero => exact nofun
  | succ n ih =>
      intro L found
      unfold starts at found
      split at found
      · split at found
        · cases found
        · rename_i other
          cases found
          rw [startOf_of_text (by simpa using other) settles]
          exact List.mem_singleton_self _
      · obtain ⟨us, -, inner⟩ := settles.matched_body
        exact ih (stay_inside _ stay) inner known_none L found
      · split at found
        · cases found
        · rename_i some
          cases found
          obtain ⟨_, _, _, first, -⟩ := settles.matched_seq
          exact startOf_of_keyword (by simpa using some) first
      · obtain ⟨_, e, _, first, second, -⟩ := settles.matched_seq
        exact ih stay first (ih (skipIf_skipIf spaced e) second next) L found
      · simp only [Option.bind_eq_bind, Option.bind_eq_some_iff, Option.some.injEq] at found
        obtain ⟨as, foundA, bs, foundB, rfl⟩ := found
        cases settles with
        | altFirst first => exact List.mem_append_left _ (ih stay first next as foundA)
        | altSecond _ second => exact List.mem_append_right _ (ih stay second next bs foundB)
      · simp only [Option.bind_eq_bind, Option.bind_eq_some_iff, Option.some.injEq] at found
        obtain ⟨as, foundA, bs, rfl, rfl⟩ := found
        cases settles with
        | opt first => exact List.mem_append_left _ (ih stay first next as foundA)
        | optNone =>
            rw [stay] at next
            exact List.mem_append_right _ (next bs rfl)
      · simp only [Option.bind_eq_bind, Option.bind_eq_some_iff, Option.some.injEq] at found
        obtain ⟨as, foundA, bs, rfl, rfl⟩ := found
        generalize verdict : Verdict.matched ts d = v at settles
        cases settles with
        | star first => exact List.mem_append_left _ (ih stay first known_none as foundA)
        | starNone =>
            cases verdict
            rw [stay] at next
            exact List.mem_append_right _ (next bs rfl)
      · cases found

theorem starts_complete (n : Nat) {after : Option (List Start)} (stay : grammar.skipIf spaced q = q)
    (found : starts n after p = some L) (other : startOf q ∉ L) :
    grammar.Settles spaced p q .refused ∨
      grammar.Settles spaced p q (.matched [] q) ∧ ∃ M, after = some M ∧ startOf q ∉ M := by
  induction n generalizing after spaced p q L with
  | zero => cases found
  | succ n ih =>
      unfold starts at found
      split at found
      · rename_i x xs
        split at found
        · cases found
        · rename_i word
          cases found
          refine .inl (Grammar.settles_word_refused fun begins => other ?_)
          obtain ⟨rest, split⟩ := begins
          simp [startOf, leading, ← split, word]
      · rcases ih (stay_inside _ stay) found other with refused | ⟨-, _, ⟨⟩, -⟩
        exact .inl (Grammar.settles_rule_refused refused)
      · split at found
        · cases found
        · rename_i some
          cases found
          refine .inl (.seqRefused (.aheadRefused (Reading.keyword_refused (by simpa using some) fun word => ?_)))
          exact other (startOf_of_leading (Reading.spellings_areSpellings _) word)
      · rename_i a b _
        -- What may come after the first part are the starts of the second.
        rcases ih stay found other with refused | ⟨first, M, found', other'⟩
        · exact .inl (.seqRefused refused)
        · rcases ih stay found' other' with refused | ⟨second, known⟩
          · rw [← stay] at refused
            exact .inl (.seq first refused)
          · have later : grammar.Settles spaced b (grammar.skipIf spaced q) (.matched [] q) := by
              rw [stay]
              exact second
            exact .inr ⟨.seq first later, known⟩
      · simp only [Option.bind_eq_bind, Option.bind_eq_some_iff, Option.some.injEq] at found
        obtain ⟨as, foundA, bs, foundB, rfl⟩ := found
        rw [List.mem_append, not_or] at other
        rcases ih stay foundA other.1 with refused | ⟨first, known⟩
        · rcases ih stay foundB other.2 with refused' | ⟨second, known⟩
          · exact .inl (.altSecond refused refused')
          · exact .inr ⟨.altSecond refused second, known⟩
        · exact .inr ⟨.altFirst first, known⟩
      · simp only [Option.bind_eq_bind, Option.bind_eq_some_iff, Option.some.injEq] at found
        obtain ⟨as, foundA, bs, rfl, rfl⟩ := found
        rw [List.mem_append, not_or] at other
        rcases ih stay foundA other.1 with refused | ⟨first, known⟩
        · exact .inr ⟨.optNone refused, bs, rfl, other.2⟩
        · exact .inr ⟨.opt first, known⟩
      · simp only [Option.bind_eq_bind, Option.bind_eq_some_iff, Option.some.injEq] at found
        obtain ⟨as, foundA, bs, rfl, rfl⟩ := found
        rw [List.mem_append, not_or] at other
        rcases ih stay foundA other.1 with refused | ⟨-, _, ⟨⟩, -⟩
        exact .inr ⟨.starNone refused, bs, rfl, other.2⟩
      · cases found

def Begins (L : List Start) : Next := fun q => startOf q ∈ L

def startsDepth : Nat := 12

def refusesAll (a : Part) (L : List Start) : Bool :=
  L.all fun x => glance x.1 x.2 glanceDepth a == .refused

theorem refused_of_begins (check : refusesAll a L = true) (still : Layout.skip q = q)
    (begins : Begins L q) : grammar.Settles true a q .refused := by
  have refused := List.all_eq_true.mp check _ begins
  have holds := glance_holds still glanceDepth a true
  rw [show glance (leading q.rest) q.rest.head? glanceDepth a = .refused from beq_iff_eq.mp refused] at holds
  exact holds

theorem stops_begins (check : refusesAll a L = true) : Stops a (Begins L) :=
  fun _ still begins => refused_of_begins check still begins

theorem begins_then {M : List Start} (after : Option (List Start))
    (known : ∀ q, Layout.skip q = q → F q → Known after q)
    (check : (starts startsDepth after b).any (fun L => L.all fun x => M.contains x) = true) (q : Cursor)
    (still : Layout.skip q = q) (next : Then b F q) : Begins M q := by
  obtain ⟨us, d, settles, follows⟩ := next
  obtain ⟨L, found, within⟩ := (Option.any_eq_true ..).mp check
  have behind : Known after (grammar.skipIf true d) := known _ (Layout.skip_skip d) follows
  have begins := starts_sound startsDepth (stay_of_still still) settles behind L found
  exact List.contains_iff_mem.mp (List.all_eq_true.mp within _ begins)

theorem stops_then (check : (starts startsDepth none b).any (refusesAll a) = true) : Stops a (Then b F) := by
  intro q still next
  obtain ⟨L, found, refuses⟩ := (Option.any_eq_true ..).mp check
  obtain ⟨us, d, settles, -⟩ := next
  have begins := starts_sound startsDepth (stay_of_still still) settles known_none L found
  exact refused_of_begins refuses still begins

theorem stops_word {r : Rule} (some : (Reading.wordsOf r).isEmpty = false)
    (check : refusesAll b ((Reading.wordsOf r).map spelled) = true) : Stops (.rule r) (Then b F) := by
  rintro q still ⟨us, d, settles, -⟩
  by_cases word : leading q.rest ∈ (Reading.wordsOf r).map String.toList
  · have begins := startOf_of_leading (Reading.keyword_of_wordsOf some).2.2 word
    cases settles.unique (refused_of_begins check still begins)
  · exact Reading.refusesWord_refuses
      (Reading.refusesWord_of_absent (List.isEmpty_eq_false_iff.mp some) word)

theorem stops_of_starts (check : (starts startsDepth none a).any (refusesAll b) = true) :
    Stops a (Then b F) := by
  intro q still next
  obtain ⟨L, found, refuses⟩ := (Option.any_eq_true ..).mp check
  obtain ⟨us, d, settles, -⟩ := next
  by_cases begins : startOf q ∈ L
  · cases settles.unique (refused_of_begins refuses still begins)
  · rcases starts_complete startsDepth (stay_of_still still) found begins with refused | ⟨-, _, ⟨⟩, -⟩
    exact refused

end Sound

end Dil.Seam
