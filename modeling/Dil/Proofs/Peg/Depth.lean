import Mathlib.Data.List.Basic
import Dil.Proofs.Peg.Settling

/-!
How deep a match nests. A grammar whose rules have heights, bounded by a limit, nests at most that
many steps between two characters that it reads, so that a run with as much room finishes, with what
is settled.
-/

namespace Dil

variable {ρ : Type}

/-- The second position lies behind the first one by the given text. -/
structure Cursor.Reads (c : Cursor) (read : List Char) (d : Cursor) : Prop where
  rest : c.rest = read ++ d.rest
  offset : d.offset = c.offset + byteLength read

theorem byteLength_append (s t : List Char) :
    byteLength (s ++ t) = byteLength s + byteLength t := by
  induction s with
  | nil => simp [byteLength]
  | cons c cs ih => simp [byteLength, ih, Nat.add_assoc]

theorem byteLength_pos {s : List Char} (some : s ≠ []) : 0 < byteLength s := by
  cases s with
  | nil => exact absurd rfl some
  | cons c cs => exact Nat.lt_of_lt_of_le c.utf8Size_pos (Nat.le_add_right ..)

namespace Cursor

theorem Reads.refl (c : Cursor) : c.Reads [] c := ⟨rfl, rfl⟩

theorem Reads.trans {c d e : Cursor} {s t : List Char} (first : c.Reads s d)
    (second : d.Reads t e) : c.Reads (s ++ t) e := by
  constructor
  · rw [first.rest, second.rest, List.append_assoc]
  · rw [second.offset, first.offset, byteLength_append, Nat.add_assoc]

theorem past_reads {c : Cursor} {read rest : List Char} (split : c.rest = read ++ rest) :
    c.Reads read (c.past read rest) := ⟨split, rfl⟩

theorem read?_eq_some_iff {c d : Cursor} {word : List Char} :
    c.read? word = some d ↔ c.Reads word d := by
  rw [read?, Option.map_eq_some_iff]
  constructor
  · rintro ⟨rest, found, rfl⟩
    exact past_reads (List.isPrefixOf?_eq_some_iff_append_eq.mp found).symm
  · intro reads
    refine ⟨d.rest, List.isPrefixOf?_eq_some_iff_append_eq.mpr reads.rest.symm, ?_⟩
    rw [past, ← reads.offset]

theorem read?_eq_none_iff {c : Cursor} {word : List Char} :
    c.read? word = none ↔ ¬ word <+: c.rest := by
  rw [read?, Option.map_eq_none_iff, Option.eq_none_iff_forall_ne_some]
  constructor
  · rintro refused ⟨rest, split⟩
    exact refused rest (List.isPrefixOf?_eq_some_iff_append_eq.mpr split)
  · intro other rest found
    exact other ⟨rest, List.isPrefixOf?_eq_some_iff_append_eq.mp found⟩

end Cursor

def Grammar.SkipsForward (g : Grammar ρ) : Prop :=
  ∀ c : Cursor, ∃ s, c.Reads s (g.skip c)

theorem Grammar.SkipsForward.skipIf {g : Grammar ρ} (forward : g.SkipsForward) (spaced : Bool)
    (c : Cursor) : ∃ s, c.Reads s (g.skipIf spaced c) := by
  cases spaced with
  | true => exact forward c
  | false => exact ⟨[], .refl c⟩

namespace Peg

/-- The least number of characters that a match reads, given as much of each rule. -/
def least (ofRule : ρ → Nat) : Peg ρ → Nat
  | .char _ => 1
  | .text word => word.length
  | .rule r => ofRule r
  | .seq a b => a.least ofRule + b.least ofRule
  | .alt a b => min (a.least ofRule) (b.least ofRule)
  | _ => 0

end Peg

theorem Verdict.of_gather_matched {v : Verdict ρ} {kind : RuleKind} {r : ρ} {c d : Cursor}
    {ts : List (Tree ρ)} (gathered : v.gather kind r c = .matched ts d) :
    ∃ us, v = .matched us d := by
  cases v with
  | matched us e =>
      cases kind <;> cases gathered <;> exact ⟨us, rfl⟩
  | refused | unfinished => cases gathered

theorem Verdict.of_after_matched {v : Verdict ρ} {us ts : List (Tree ρ)} {d : Cursor}
    (joined : v.after us = .matched ts d) : ∃ vs, v = .matched vs d ∧ ts = us ++ vs := by
  cases v with
  | matched vs e =>
      cases joined
      exact ⟨vs, rfl, rfl⟩
  | refused | unfinished => cases joined

namespace Grammar

variable {g : Grammar ρ} {least : ρ → Nat} {spaced : Bool} {p : Peg ρ} {c d : Cursor}
  {ts : List (Tree ρ)}

theorem Settles.reads (forward : g.SkipsForward) (rules : ∀ r, least r ≤ (g.body r).least least)
    (settles : g.Settles spaced p c (.matched ts d)) :
    ∃ s, c.Reads s d ∧ p.least least ≤ s.length := by
  generalize outcome : Verdict.matched ts d = v at settles
  induction settles generalizing ts d with
  | nothing | atEnd | optNone | starNone | moreNone | ahead | absent =>
      cases outcome
      exact ⟨[], .refl _, Nat.le_refl 0⟩
  | beforeEnd | charRefused | textRefused | seqRefused | aheadRefused | present => cases outcome
  | char next _ =>
      cases outcome
      exact ⟨_, Cursor.past_reads next, Nat.le_refl 1⟩
  | text next =>
      cases outcome
      exact ⟨_, Cursor.read?_eq_some_iff.mp next, Nat.le_refl _⟩
  | rule _ ih =>
      obtain ⟨us, rfl⟩ := Verdict.of_gather_matched outcome.symm
      obtain ⟨s, reads, enough⟩ := ih rfl
      exact ⟨s, reads, Nat.le_trans (rules _) enough⟩
  | seq _ _ ihA ihB =>
      obtain ⟨vs, rfl, _⟩ := Verdict.of_after_matched outcome.symm
      obtain ⟨s, readsA, enoughA⟩ := ihA rfl
      obtain ⟨t, readsB, enoughB⟩ := ihB rfl
      obtain ⟨layout, skipped⟩ := forward.skipIf _ _
      refine ⟨_, readsA.trans (skipped.trans readsB), ?_⟩
      simp only [Peg.least, List.length_append]
      omega
  | altFirst _ ih =>
      cases outcome
      obtain ⟨s, reads, enough⟩ := ih rfl
      exact ⟨s, reads, Nat.le_trans (Nat.min_le_left _ _) enough⟩
  | altSecond _ _ _ ih =>
      obtain ⟨s, reads, enough⟩ := ih outcome
      exact ⟨s, reads, Nat.le_trans (Nat.min_le_right _ _) enough⟩
  | opt _ ih =>
      cases outcome
      obtain ⟨s, reads, _⟩ := ih rfl
      exact ⟨s, reads, Nat.zero_le _⟩
  | star _ _ ihA ihB =>
      obtain ⟨vs, rfl, _⟩ := Verdict.of_after_matched outcome.symm
      obtain ⟨s, readsA, _⟩ := ihA rfl
      obtain ⟨t, readsB, _⟩ := ihB rfl
      exact ⟨_, readsA.trans readsB, Nat.zero_le _⟩
  | more _ _ ihA ihB =>
      obtain ⟨vs, rfl, _⟩ := Verdict.of_after_matched outcome.symm
      obtain ⟨s, readsA, _⟩ := ihA rfl
      obtain ⟨t, readsB, _⟩ := ihB rfl
      obtain ⟨layout, skipped⟩ := forward.skipIf _ _
      exact ⟨_, skipped.trans (readsA.trans readsB), Nat.zero_le _⟩

end Grammar

namespace Peg

/-- The number of steps that are nested before a character is read. -/
def height (least : ρ → Nat) (ofRule : ρ → Nat) : Peg ρ → Nat
  | .rule r => ofRule r + 1
  | .seq a b =>
    if a.least least = 0 then max (a.height least ofRule) (b.height least ofRule) + 1
    else a.height least ofRule + 1
  | .alt a b => max (a.height least ofRule) (b.height least ofRule) + 1
  | .opt a | .star a | .more a | .ahead a | .unless a => a.height least ofRule + 1
  | _ => 1

/-- All that may come next behind a character is no higher than the limit, and whatever is repeated
reads something. -/
def fits (least : ρ → Nat) (ofRule : ρ → Nat) (limit : Nat) : Peg ρ → Bool
  | .seq a b =>
    a.fits least ofRule limit && b.fits least ofRule limit && b.height least ofRule ≤ limit
  | .alt a b => a.fits least ofRule limit && b.fits least ofRule limit
  | .opt a | .ahead a | .unless a => a.fits least ofRule limit
  | .star a | .more a =>
    a.fits least ofRule limit && a.height least ofRule < limit && 0 < a.least least
  | _ => true

theorem height_pos (least : ρ → Nat) (ofRule : ρ → Nat) (p : Peg ρ) :
    0 < p.height least ofRule := by
  cases p with
  | seq a b =>
      simp only [height]
      split <;> omega
  | _ => simp [height]

theorem height_first (least : ρ → Nat) (ofRule : ρ → Nat) (a b : Peg ρ) :
    a.height least ofRule < (Peg.seq a b).height least ofRule := by
  simp only [height]
  split <;> omega

end Peg

/-- What has to be known of the rules of a grammar to bound its runs. -/
structure Grammar.Bounded (g : Grammar ρ) (least height : ρ → Nat) (limit : Nat) : Prop where
  forward : g.SkipsForward
  enough (r : ρ) : least r ≤ (g.body r).least least
  low (r : ρ) : (g.body r).height least height ≤ height r
  fits (r : ρ) : (g.body r).fits least height limit = true

namespace Grammar

variable {g : Grammar ρ} {least height : ρ → Nat} {limit : Nat} {spaced : Bool} {p : Peg ρ}
  {c d : Cursor} {v : Verdict ρ}

theorem skipIf_le (forward : g.SkipsForward) (spaced : Bool) (c : Cursor) :
    (g.skipIf spaced c).rest.length ≤ c.rest.length := by
  obtain ⟨s, reads⟩ := forward.skipIf spaced c
  rw [reads.rest, List.length_append]
  omega

theorem Bounded.length_le (bounded : g.Bounded least height limit) {ts : List (Tree ρ)}
    (settles : g.Settles spaced p c (.matched ts d)) :
    d.rest.length + p.least least ≤ c.rest.length := by
  obtain ⟨s, reads, enough⟩ := settles.reads bounded.forward bounded.enough
  rw [reads.rest, List.length_append]
  omega

theorem room_behind {limit n m k l : Nat} (shorter : l < m) (low : k ≤ limit)
    (room : limit * m ≤ n) : limit * l + k ≤ n := by
  have step : limit * (l + 1) ≤ limit * m := Nat.mul_le_mul_left limit shorter
  rw [Nat.mul_succ] at step
  omega

theorem Bounded.room_second (bounded : g.Bounded least height limit) {a b : Peg ρ} {n : Nat}
    {ts : List (Tree ρ)} (first : g.Settles spaced a c (.matched ts d))
    (low : b.height least height ≤ limit)
    (room : limit * c.rest.length + (Peg.seq a b).height least height ≤ n + 1) :
    limit * (g.skipIf spaced d).rest.length + b.height least height ≤ n := by
  have shorter := bounded.length_le first
  have skipped := skipIf_le bounded.forward spaced d
  simp only [Peg.height] at room
  split at room
  · have within : limit * (g.skipIf spaced d).rest.length ≤ limit * c.rest.length :=
      Nat.mul_le_mul_left limit (by omega)
    omega
  · exact room_behind (by omega) low (by omega : limit * c.rest.length ≤ n)

/-- Further rounds of a repetition have room, since the first one read something. -/
theorem Bounded.room_further (bounded : g.Bounded least height limit) {a : Peg ρ} {n m : Nat}
    {ts : List (Tree ρ)} (fits : (Peg.more a).fits least height limit = true)
    (first : g.Settles spaced a c (.matched ts d)) (within : c.rest.length ≤ m)
    (room : limit * m ≤ n) :
    limit * d.rest.length + (Peg.more a).height least height ≤ n := by
  simp only [Peg.fits, Bool.and_eq_true, decide_eq_true_eq] at fits
  obtain ⟨⟨-, low⟩, reads⟩ := fits
  have shorter := bounded.length_le first
  exact room_behind (by omega) low room

theorem run_of_settles (bounded : g.Bounded least height limit)
    (settles : g.Settles spaced p c v) (fits : p.fits least height limit = true) {n : Nat}
    (room : limit * c.rest.length + p.height least height ≤ n) :
    (g.run n spaced p c).verdict = v := by
  -- The induction is on the fuel: each premise of a rule needs less of it, which `room` counts down.
  induction n generalizing spaced p c v with
  | zero =>
      have high := p.height_pos least height
      omega
  | succ n ih =>
      cases settles with
      | nothing => rfl
      | atEnd nothingLeft => simp [run, nothingLeft]
      | beforeEnd left => simp [run, left]
      | char next accepted => simp [run, next, accepted]
      | charRefused refused =>
          simp only [run]
          split
          · rename_i x xs next
            simp [refused x xs next]
          · rfl
      | text next => simp [run, next]
      | textRefused other => simp [run, other]
      | rule inner =>
          rename_i r v
          have low := bounded.low r
          simp only [Peg.height] at room
          have found := ih inner (bounded.fits r) (by omega)
          simp [run, found]
      | @seq _ a b _ d ts v first second =>
          simp only [Peg.fits, Bool.and_eq_true, decide_eq_true_eq] at fits
          obtain ⟨⟨fitsA, fitsB⟩, lowB⟩ := fits
          have lower := Peg.height_first least height a b
          have foundA := ih first fitsA (by omega)
          have foundB := ih second fitsB (bounded.room_second first lowB room)
          simp [run, foundA, foundB]
      | @seqRefused _ a b _ first =>
          simp only [Peg.fits, Bool.and_eq_true] at fits
          have lower := Peg.height_first least height a b
          simp [run, ih first fits.1.1 (by omega)]
      | altFirst first =>
          simp only [Peg.fits, Bool.and_eq_true] at fits
          simp only [Peg.height] at room
          simp [run, ih first fits.1 (by omega)]
      | altSecond first second =>
          simp only [Peg.fits, Bool.and_eq_true] at fits
          simp only [Peg.height] at room
          simp [run, ih first fits.1 (by omega), ih second fits.2 (by omega)]
      | opt first | optNone first | ahead first | aheadRefused first | absent first
      | present first =>
          simp only [Peg.height] at room
          simp [run, ih first fits (by omega)]
      | @star _ a _ d ts v first others =>
          have fitsA := fits
          simp only [Peg.fits, Bool.and_eq_true] at fitsA
          simp only [Peg.height] at room
          have foundA := ih first fitsA.1.1 (by omega)
          have foundB := ih others fits (bounded.room_further fits first (Nat.le_refl _) (by omega))
          simp [run, foundA, foundB]
      | starNone first =>
          simp only [Peg.fits, Bool.and_eq_true] at fits
          simp only [Peg.height] at room
          simp [run, ih first fits.1.1 (by omega)]
      | @more _ a _ d ts v first others =>
          have fitsA := fits
          simp only [Peg.fits, Bool.and_eq_true] at fitsA
          have skipped := skipIf_le bounded.forward spaced c
          have within := Nat.mul_le_mul_left limit skipped
          simp only [Peg.height] at room
          have foundA := ih first fitsA.1.1 (by omega)
          have foundB := ih others fits (bounded.room_further fits first skipped (by omega))
          simp [run, foundA, foundB]
      | moreNone first =>
          simp only [Peg.fits, Bool.and_eq_true] at fits
          have within := Nat.mul_le_mul_left limit (skipIf_le bounded.forward spaced c)
          simp only [Peg.height] at room
          simp [run, ih first fits.1.1 (by omega)]

end Grammar

end Dil
