import Dil.Proofs.Relayout.Gaps
import Dil.Proofs.Seam.Splits

/-!
A source and a part of it: the part ends before a given text, and starts some bytes behind the start of
the whole. Whatever is read of the whole up to that text at most is read of the part as well, if only
layout and characters are read.
-/

namespace Dil

open Layout (behind)

namespace Layout

section Cut

variable {y y' z : List Char}

theorem behind_of_still (still : behind (y ++ z) = y ++ z) : behind y = y := by
  -- A run that starts the shorter text is skipped in the longer one too.
  have norun {r x : List Char} (run : Run r) (split : y = r ++ x) : r = [] := by
    rw [split, List.append_assoc, behind_run run] at still
    have shorter := behind_length_le (x ++ z)
    rw [still, List.length_append] at shorter
    exact List.length_eq_zero_iff.mp (by omega)
  by_cases nothing : behind y = []
  · obtain ⟨r, l, run, line, split⟩ := spent_of_behind nothing
    rw [norun run split, List.nil_append] at split
    subst split
    rcases line with rfl | ⟨t, -, rfl⟩
    · rfl
    · exact absurd still (Relayout.line_moves _)
  · obtain ⟨r, run, split⟩ := run_of_behind nothing
    rw [norun run split, List.nil_append] at split
    exact split.symm

theorem behind_of_append (ends : behind (y ++ z) = y' ++ z) : behind y = y' := by
  by_cases nothing : behind (y ++ z) = []
  · rw [ends] at nothing
    obtain ⟨rfl, rfl⟩ := List.append_eq_nil_iff.mp nothing
    rwa [List.append_nil, List.append_nil] at ends
  · obtain ⟨r, run, split⟩ := run_of_behind nothing
    rw [ends, ← List.append_assoc, List.append_cancel_right_eq] at split
    rw [split, behind_run run]
    refine behind_of_still (z := z) ?_
    rw [← ends, behind_behind]

end Cut

end Layout

/-- The second reader stands where the first one does. What it reads lacks the text `z` at the end, and
starts `n` bytes later. -/
structure Cursor.Cut (z : List Char) (n : Nat) (c c' : Cursor) : Prop where
  rest : c.rest = c'.rest ++ z
  offset : c.offset = c'.offset + n

namespace Cursor.Cut

variable {z s : List Char} {n : Nat} {c c' d d' : Cursor}

theorem split (within : z.length ≤ d.rest.length) (split : c.rest = s ++ d.rest) (cut : Cut z n c c') :
    ∃ y, d.rest = y ++ z ∧ c'.rest = s ++ y := by
  rw [cut.rest] at split
  rcases List.append_eq_append_iff.mp split with ⟨x, rest, rest'⟩ | ⟨y, rest, rest'⟩
  · have long := congrArg List.length rest'
    rw [List.length_append] at long
    obtain rfl : x = [] := List.length_eq_zero_iff.mp (by omega)
    rw [List.append_nil] at rest
    exact ⟨[], rest'.symm, by rw [rest, List.append_nil]⟩
  · exact ⟨y, rest', rest⟩

theorem reads (cut : Cut z n c c') (reads : c.Reads s d) (within : z.length ≤ d.rest.length) :
    ∃ d', c'.Reads s d' ∧ Cut z n d d' := by
  obtain ⟨y, rest, rest'⟩ := cut.split within reads.rest
  refine ⟨c'.past s y, Cursor.past_reads rest', rest, ?_⟩
  have start := cut.offset
  have stop : (c'.past s y).offset = c'.offset + byteLength s := rfl
  rw [reads.offset]
  omega

theorem behind (cut : Cut z n c c') (first : c.Reads s d) (second : c'.Reads s d') : Cut z n d d' := by
  have whole := cut.rest
  rw [first.rest, second.rest, List.append_assoc, List.append_cancel_left_eq] at whole
  refine ⟨whole, ?_⟩
  rw [first.offset, second.offset, cut.offset]
  omega

theorem skip (cut : Cut z n c c') (within : z.length ≤ (Layout.skip c).rest.length) :
    Cut z n (Layout.skip c) (Layout.skip c') := by
  obtain ⟨s, first⟩ := Layout.skip_reads c
  obtain ⟨t, second⟩ := Layout.skip_reads c'
  obtain ⟨y, rest, rest'⟩ := cut.split within first.rest
  have same : (Layout.skip c').rest = y := by
    rw [Layout.skip_rest]
    apply Layout.behind_of_append (z := z)
    rw [← cut.rest, ← Layout.skip_rest, rest]
  have read := second.rest
  rw [same, rest', List.append_cancel_right_eq] at read
  exact cut.behind first (read ▸ second)

end Cursor.Cut

end Dil
