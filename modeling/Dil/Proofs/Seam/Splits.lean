import Dil.Proofs.Seam.Mates

namespace Dil

open Layout (Quiet Run Mode behind isBlank endsLine scan)
open Relayout (Backward)

namespace Layout

section Ends

variable {l q r s t z : List Char} {n : Nat}

/-- Nothing, or a line comment without its end. -/
def OpenLine (l : List Char) : Prop := l = [] ∨ ∃ t, (∀ c ∈ t, endsLine c = false) ∧ l = '/' :: '/' :: t

/-- What a reader has found that came to the end of all, in each mode. -/
def Spent (s : List Char) : Mode → Prop
  | .between => ∃ r l, Run r ∧ OpenLine l ∧ s = r ++ l
  | .line => (∀ c ∈ s, endsLine c = false) ∨ ∃ t e r l, (∀ c ∈ t, endsLine c = false) ∧
      endsLine e = true ∧ Run r ∧ OpenLine l ∧ s = t ++ e :: (r ++ l)
  | .block opened => opened.rest ≠ [] → ∃ t r l, ¬ ['*', '/'] <:+: t ∧ Run r ∧ OpenLine l ∧
      s = t ++ '*' :: '/' :: (r ++ l)

theorem openLine_nil : OpenLine [] := .inl rfl

theorem scan_spent (mode : Mode) (s : List Char) (n : Nat) (nothing : (scan mode s n).rest = []) :
    Spent s mode := by
  fun_induction scan mode s n with
  | case1 n => exact ⟨[], [], .nil, openLine_nil, rfl⟩
  | case2 c cs n blank ih =>
      obtain ⟨r, l, run, line, split⟩ := ih nothing
      exact ⟨c :: r, l, .cons (.blank blank) run, line, by rw [split]; rfl⟩
  | case3 n ds _ ih =>
      rcases ih nothing with inside | ⟨t, e, r, l, inside, ends, run, line, split⟩
      · exact ⟨[], _, .nil, .inr ⟨ds, inside, rfl⟩, rfl⟩
      · refine ⟨_, l, .cons (.line inside ends) run, line, ?_⟩
        rw [split]
        simp
  | case4 n ds _ ih =>
      obtain ⟨t, r, l, inside, run, line, split⟩ := ih nothing (List.cons_ne_nil _ _)
      refine ⟨_, l, .cons (.block inside) run, line, ?_⟩
      rw [split]
      simp
  | case5 cs n | case6 c cs n => cases nothing
  | case7 n => exact .inl (List.forall_mem_nil _)
  | case8 c cs n ih =>
      by_cases ends : endsLine c = true
      · simp only [ends, if_true] at ih nothing
        obtain ⟨r, l, run, line, split⟩ := ih nothing
        exact .inr ⟨[], c, r, l, List.forall_mem_nil _, ends, run, line, by rw [split]; rfl⟩
      · simp only [ends] at ih nothing
        have here : endsLine c = false := by simpa using ends
        rcases ih nothing with inside | ⟨t, e, r, l, inside, ends, run, line, split⟩
        · exact .inl (List.forall_mem_cons.mpr ⟨here, inside⟩)
        · refine .inr ⟨c :: t, e, r, l, List.forall_mem_cons.mpr ⟨here, inside⟩, ends, run, line, ?_⟩
          rw [split]
          rfl
  | case9 opened n => exact fun some => absurd nothing some
  | case10 opened cs n ih =>
      obtain ⟨r, l, run, line, split⟩ := ih nothing
      exact fun _ => ⟨[], r, l, by simp, run, line, by rw [split]; rfl⟩
  | case11 opened c cs n other ih =>
      intro some
      obtain ⟨t, r, l, inside, run, line, split⟩ := ih nothing some
      refine ⟨c :: t, r, l, ?_, run, line, by rw [split]; rfl⟩
      rw [ends_cons, not_or]
      refine ⟨?_, inside⟩
      rintro ⟨star, slash⟩
      obtain ⟨ds, rfl⟩ := List.head?_eq_some_iff.mp slash
      exact other _ star split

theorem spent_of_behind (nothing : behind s = []) : ∃ r l, Run r ∧ OpenLine l ∧ s = r ++ l :=
  scan_spent .between s 0 nothing

theorem Run.cut (run : Run r) (split : r = q ++ ['\n']) : ∃ r l, Run r ∧ OpenLine l ∧ q = r ++ l := by
  induction run generalizing q with
  | nil => simp at split
  | @cons i s piece others ih =>
      rcases List.eq_nil_or_concat s with rfl | ⟨s, x, rfl⟩
      · rw [List.append_nil] at split
        cases piece with
        | blank => exact ⟨[], [], .nil, .inl rfl, (List.append_eq_singleton_iff.mp split.symm).elim And.left nofun⟩
        | @line t e inside =>
            rw [← List.cons_append, ← List.cons_append] at split
            obtain ⟨rfl, -⟩ := List.append_inj' split rfl
            exact ⟨[], _, .nil, .inr ⟨t, inside, rfl⟩, rfl⟩
        | @block t =>
            have ends : '/' :: '*' :: (t ++ ['*']) ++ ['/'] = q ++ ['\n'] := by simpa using split
            cases (List.append_inj' ends rfl).2
      · rw [List.concat_eq_append, ← List.append_assoc] at split
        obtain ⟨rfl, ⟨⟩⟩ := List.append_inj' split rfl
        obtain ⟨r, l, run, line, rfl⟩ := ih (List.concat_eq_append ..)
        exact ⟨i ++ r, l, .cons piece run, line, (List.append_assoc ..).symm⟩

theorem Run.last {x : Char} (run : Run r) (split : r = q ++ [x]) : isBlank x = true ∨ x = '/' := by
  induction run generalizing q with
  | nil => simp at split
  | @cons i s piece others ih =>
      rcases List.eq_nil_or_concat s with rfl | ⟨s, y, rfl⟩
      · rw [List.append_nil] at split
        cases piece with
        | @blank c blank =>
            have last : [] ++ [c] = q ++ [x] := split
            obtain ⟨-, ⟨⟩⟩ := List.append_inj' last rfl
            exact .inl blank
        | @line t e _ ends =>
            have last : '/' :: '/' :: t ++ [e] = q ++ [x] := split
            obtain ⟨-, ⟨⟩⟩ := List.append_inj' last rfl
            refine .inl ?_
            simp only [endsLine, Bool.or_eq_true, beq_iff_eq] at ends
            rcases ends with rfl | rfl <;> rfl
        | @block t =>
            have last : '/' :: '*' :: (t ++ ['*']) ++ ['/'] = q ++ [x] := by simpa using split
            obtain ⟨-, ⟨⟩⟩ := List.append_inj' last rfl
            exact .inr rfl
      · rw [List.concat_eq_append, ← List.append_assoc] at split
        obtain ⟨-, ⟨⟩⟩ := List.append_inj' split rfl
        exact ih (List.concat_eq_append ..)

theorem scan_openLine (inside : ∀ c ∈ t, endsLine c = false) (n : Nat) : (scan .line t n).rest = [] := by
  induction t generalizing n with
  | nil => rfl
  | cons c t ih =>
      rw [List.forall_mem_cons] at inside
      simp only [scan, inside.1]
      exact ih inside.2 _

theorem behind_openLine (line : OpenLine l) : behind l = [] := by
  rcases line with rfl | ⟨t, inside, rfl⟩
  · rfl
  · simpa [behind, skip, scan, isBlank] using scan_openLine inside 2

theorem quiet_of_run {g : List Char} (run : Run r) : Quiet g r := by
  have quiet := Quiet.nil (g := g).run run
  rwa [List.append_nil] at quiet

theorem behind_closed (line : OpenLine l) : behind (l ++ '\n' :: z) = behind z := by
  rcases line with rfl | ⟨t, inside, rfl⟩
  · exact behind_piece (.blank rfl) z
  · have closed := behind_piece (.line inside (e := '\n') rfl) z
    simpa using closed

end Ends

end Layout

open Layout (OpenLine)

def Seam.closing {l : List Char} (line : OpenLine l) (z : List Char) (leftEnd rightEnd : Nat) : Seam where
  left := l
  right := l ++ '\n' :: z
  leftEnd := leftEnd
  rightEnd := rightEnd
  rift := by
    rcases line with rfl | ⟨t, -, rfl⟩
    · exact ⟨nofun, by rintro d ⟨⟩; rfl⟩
    · exact ⟨by rintro d ⟨⟩; rfl, by rintro d ⟨⟩; rfl⟩
  differ := by simp
  alone := by
    rcases line with rfl | ⟨t, -, rfl⟩
    · simp
    · simp
  layout := by
    rintro ⟨-, same⟩
    have shorter := Layout.behind_length_le z
    rw [Layout.behind_closed line] at same
    rw [same] at shorter
    simp at shorter
    omega

section Splits

variable {l t whole : List Char} {p : Rule.Part} {spaced still : Bool} {c d : Cursor} {ts : List (Tree Rule)}

def Trails (t : List Char) : Prop := ∃ x l, Quiet l x ∧ OpenLine l ∧ t = x ++ l

theorem trails_backward : Backward Trails where
  layout := by
    rintro t ⟨x, l, quiet, line, split⟩
    by_cases nothing : behind t = []
    · obtain ⟨r, l, run, line, rfl⟩ := Layout.spent_of_behind nothing
      exact ⟨r, l, Layout.quiet_of_run run, line, rfl⟩
    · obtain ⟨r, run, whole⟩ := Layout.run_of_behind nothing
      exact ⟨r ++ x, l, quiet.run run, line, by rw [whole, split, List.append_assoc]⟩
  plain unblank other := fun ⟨x, l, quiet, line, split⟩ =>
    ⟨_ :: x, l, .plain unblank other quiet, line, congrArg (_ :: ·) split⟩
  slash alone := by
    rintro ⟨x, l, quiet, line, rfl⟩
    exact ⟨'/' :: x, l, .slash alone quiet, line, rfl⟩
  quoted inside := by
    rintro ⟨x, l, quiet, line, rfl⟩
    exact ⟨_, l, .quoted inside quiet, line, by simp⟩

def Leads (whole t : List Char) : Prop :=
  ∀ e, e ++ t = whole ++ ['\n', ';'] →
    t = [';'] ∨ ∃ x l, Quiet (l ++ ['\n', ';']) x ∧ OpenLine l ∧ t = x ++ (l ++ ['\n', ';'])

theorem newline_before {e w : List Char} {x : Char}
    (split : e ++ (w ++ [x, ';']) = whole ++ ['\n', ';']) : x = '\n' ∧ e ++ w = whole := by
  have ends : (e ++ w) ++ [x, ';'] = whole ++ ['\n', ';'] := by simpa using split
  obtain ⟨same, last⟩ := List.append_inj' ends rfl
  cases last
  exact ⟨rfl, same⟩

theorem nil_of_behind {e : List Char} (split : e ++ t = whole ++ ['\n', ';']) (nothing : behind t = []) :
    t = [] := by
  obtain ⟨r, l, run, line, rfl⟩ := Layout.spent_of_behind nothing
  rcases line with rfl | ⟨u, inside, rfl⟩
  · rcases List.eq_nil_or_concat r with rfl | ⟨q, x, rfl⟩
    · rfl
    · rw [List.concat_eq_append] at run split
      have ends : (e ++ q) ++ [x] = (whole ++ ['\n']) ++ [';'] := by simpa using split
      obtain ⟨-, ⟨⟩⟩ := List.append_inj' ends rfl
      rcases run.last rfl with blank | slash
      · cases blank
      · cases slash
  · rw [← List.append_assoc] at split
    have short : ['\n', ';'] <:+ '/' :: '/' :: u :=
      List.suffix_of_suffix_length_le ⟨whole, rfl⟩ ⟨_, split⟩ (by simp)
    have newline : '\n' ∈ u := by simpa using short.subset List.mem_cons_self
    cases inside _ newline

theorem leads_backward (whole : List Char) : Backward (Leads whole) where
  layout := by
    intro t later e split
    have some : behind t ≠ [] := by
      intro nothing
      rw [nothing] at later
      rcases later _ (List.append_nil _) with none | ⟨x, l, -, -, none⟩ <;> simp at none
    obtain ⟨r, run, read⟩ := Layout.run_of_behind some
    rw [read, ← List.append_assoc] at split
    rcases later (e ++ r) split with closing | ⟨x, l, quiet, line, same⟩
    · rw [closing] at read split
      rcases List.eq_nil_or_concat r with rfl | ⟨q, y, rfl⟩
      · exact .inl read
      · rw [List.concat_eq_append] at run read split
        obtain ⟨rfl, -⟩ := newline_before (w := q) (by simpa using split)
        obtain ⟨r, l, shorter, line, rfl⟩ := run.cut rfl
        exact .inr ⟨r, l, Layout.quiet_of_run shorter, line, by simpa using read⟩
    · exact .inr ⟨r ++ x, l, quiet.run run, line, by rw [read, same, List.append_assoc]⟩
  plain := by
    intro c t unblank other later e split
    rcases later (e ++ [c]) (by simpa using split) with rfl | ⟨x, l, quiet, line, rfl⟩
    · obtain ⟨rfl, -⟩ := newline_before (w := []) split
      cases unblank
    · exact .inr ⟨c :: x, l, .plain unblank other quiet, line, rfl⟩
  slash := by
    intro t alone later e split
    rcases later (e ++ ['/']) (by simpa using split) with rfl | ⟨x, l, quiet, line, rfl⟩
    · cases (newline_before (w := []) split).1
    · exact .inr ⟨'/' :: x, l, .slash alone quiet, line, rfl⟩
  quoted := by
    intro w t inside later e split
    rcases later (e ++ '"' :: (w ++ ['"'])) (by simpa using split) with rfl | ⟨x, l, quiet, line, rfl⟩
    · cases (newline_before (w := '"' :: w) (by simpa using split)).1
    · exact .inr ⟨_, l, .quoted inside quiet, line, by simp⟩

theorem trails_of_settles (settles : grammar.Settles spaced p c (.matched ts d))
    (fit : Relayout.shy spaced still p = true) (pairs : Relayout.paired p = true)
    (settled : still = true → behind c.rest = c.rest) (nothing : behind d.rest = []) : Trails c.rest := by
  obtain ⟨r, l, run, line, split⟩ := Layout.spent_of_behind nothing
  refine trails_backward.before settles fit pairs settled ?_
  rw [split]
  exact ⟨r, l, Layout.quiet_of_run run, line, rfl⟩

end Splits

end Dil
