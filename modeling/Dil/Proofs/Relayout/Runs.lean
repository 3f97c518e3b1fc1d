import Dil.Proofs.Layout
import Dil.Proofs.Text.Quoted

/-!
Runs of blanks and complete comments, and the texts that may stand before one so that the run begins
where it seems to: outside of comments and quotes, and with no slash that it could make a comment of.
-/

namespace Dil.Layout

inductive Piece : List Char → Prop where
  | blank {c : Char} (blank : isBlank c = true) : Piece [c]
  | line {t : List Char} {e : Char} (inside : ∀ c ∈ t, endsLine c = false)
      (ends : endsLine e = true) : Piece ('/' :: '/' :: (t ++ [e]))
  | block {t : List Char} (inside : ¬ ['*', '/'] <:+: t) : Piece ('/' :: '*' :: (t ++ ['*', '/']))

/-- Blanks and comments with their ends, one behind the other. -/
inductive Run : List Char → Prop where
  | nil : Run []
  | cons {i s : List Char} (piece : Piece i) (others : Run s) : Run (i ++ s)

section Pieces

variable {i s t : List Char} {e : Char} {n : Nat}

theorem scan_between_rest (s : List Char) (n : Nat) : (scan .between s n).rest = behind s :=
  skip_rest ⟨s, n⟩

theorem scan_line (inside : ∀ c ∈ t, endsLine c = false) (ends : endsLine e = true) :
    (scan .line (t ++ e :: s) n).rest = behind s := by
  induction t generalizing n with
  | nil => simp [scan, ends, scan_between_rest]
  | cons c cs ih =>
      rw [List.forall_mem_cons] at inside
      simp [scan, inside.1, ih inside.2]

theorem ends_cons {c : Char} : ['*', '/'] <:+: c :: t ↔
    (c = '*' ∧ t.head? = some '/') ∨ ['*', '/'] <:+: t := by
  rw [List.infix_cons_iff, List.cons_prefix_cons]
  cases t with
  | nil => simp
  | cons d ds => simp [List.cons_prefix_cons, eq_comm]

theorem scan_block (opened : Cursor) (inside : ¬ ['*', '/'] <:+: t) :
    (scan (.block opened) (t ++ '*' :: '/' :: s) n).rest = behind s := by
  induction t generalizing n with
  | nil => simp [scan, scan_between_rest]
  | cons c cs ih =>
      rw [ends_cons, not_or] at inside
      rw [List.cons_append, scan, ih inside.2]
      intro ds star slash
      cases cs with
      | nil => cases slash
      | cons d cs =>
          cases slash
          exact inside.1 ⟨star, rfl⟩

theorem behind_piece (piece : Piece i) (s : List Char) : behind (i ++ s) = behind s := by
  cases piece with
  | blank blank =>
      rw [List.singleton_append, ← scan_between_rest s 1, ← scan_blank s 0 blank]
      rfl
  | line inside ends =>
      have read := scan_line (s := s) (n := 2) inside ends
      simpa [behind, skip, scan, isBlank] using read
  | block inside =>
      rename_i t
      have read := scan_block (s := s) (n := 2) ⟨'/' :: '*' :: (t ++ '*' :: '/' :: s), 0⟩ inside
      simpa [behind, skip, scan, isBlank] using read

theorem behind_run (run : Run t) (s : List Char) : behind (t ++ s) = behind s := by
  induction run with
  | nil => rfl
  | cons piece _ ih => rw [List.append_assoc, behind_piece piece, ih]

theorem Piece.head (piece : Piece i) : ∃ c s, i = c :: s ∧ (isBlank c = true ∨ c = '/') := by
  cases piece with
  | blank blank => exact ⟨_, _, rfl, .inl blank⟩
  | line | block => exact ⟨_, _, rfl, .inr rfl⟩

/-- What a reader that stops before `d` has found, in each mode. -/
def Found (s : List Char) (d : Cursor) : Mode → Prop
  | .between => ∃ l, Run l ∧ s = l ++ d.rest
  | .line => ∃ t e l, (∀ c ∈ t, endsLine c = false) ∧ endsLine e = true ∧ Run l ∧
      s = t ++ e :: (l ++ d.rest)
  | .block opened => d = opened ∨ ∃ t l, ¬ ['*', '/'] <:+: t ∧ Run l ∧
      s = t ++ '*' :: '/' :: (l ++ d.rest)

theorem scan_found (mode : Mode) (s : List Char) (n : Nat) (left : (scan mode s n).rest ≠ []) :
    Found s (scan mode s n) mode := by
  fun_induction scan mode s n with
  | case1 n => exact absurd rfl left
  | case2 c cs n blank ih =>
      obtain ⟨l, run, split⟩ := ih left
      exact ⟨c :: l, .cons (.blank blank) run, by rw [List.cons_append, ← split]⟩
  | case3 n ds _ ih =>
      obtain ⟨t, e, l, inside, ends, run, split⟩ := ih left
      refine ⟨_, .cons (.line inside ends) run, ?_⟩
      conv_lhs => rw [split]
      simp
  | case4 n ds _ ih =>
      rcases ih left with open_ | ⟨t, l, inside, run, split⟩
      · exact ⟨[], .nil, by rw [open_]; rfl⟩
      · refine ⟨_, .cons (.block inside) run, ?_⟩
        conv_lhs => rw [split]
        simp
  | case5 cs n | case6 c cs n => exact ⟨[], .nil, rfl⟩
  | case7 n => exact absurd rfl left
  | case8 c cs n ih =>
      by_cases ends : endsLine c = true
      · simp only [ends, if_true] at ih left ⊢
        obtain ⟨l, run, split⟩ := ih left
        exact ⟨[], c, l, List.forall_mem_nil _, ends, run, by rw [List.nil_append, ← split]⟩
      · simp only [ends] at ih left ⊢
        obtain ⟨t, e, l, inside, ends', run, split⟩ := ih left
        refine ⟨c :: t, e, l, List.forall_mem_cons.mpr ⟨by simpa using ends, inside⟩, ends', run, ?_⟩
        rw [List.cons_append, ← split]
  | case9 opened n => exact .inl rfl
  | case10 opened cs n ih =>
      obtain ⟨l, run, split⟩ := ih left
      exact .inr ⟨[], l, by simp, run, by rw [List.nil_append, ← split]⟩
  | case11 opened c cs n other ih =>
      rcases ih left with open_ | ⟨t, l, inside, run, split⟩
      · exact .inl open_
      · refine .inr ⟨c :: t, l, ?_, run, by rw [List.cons_append, ← split]⟩
        rw [ends_cons, not_or]
        refine ⟨?_, inside⟩
        rintro ⟨star, slash⟩
        obtain ⟨ds, rfl⟩ := List.head?_eq_some_iff.mp slash
        exact other _ star split

theorem run_of_behind (left : behind s ≠ []) : ∃ l, Run l ∧ s = l ++ behind s :=
  scan_found .between s 0 left

end Pieces

/-- Read from its start, the text ends outside of comments and quotes, also with `g` behind it. -/
inductive Quiet (g : List Char) : List Char → Prop where
  | nil : Quiet g []
  | layout {i x : List Char} (piece : Piece i) (others : Quiet g x) : Quiet g (i ++ x)
  | plain {c : Char} {x : List Char} (unblank : isBlank c = false) (other : c ≠ '/' ∧ c ≠ '"')
      (others : Quiet g x) : Quiet g (c :: x)
  | slash {x : List Char} (alone : ∀ d ∈ (x ++ g).head?, d ≠ '/' ∧ d ≠ '*') (others : Quiet g x) :
      Quiet g ('/' :: x)
  | quoted {t x : List Char} (inside : Quoted.isInside t = true) (others : Quiet g x) :
      Quiet g ('"' :: (t ++ '"' :: x))

section Quiet

variable {g h x : List Char} {c : Char}

theorem Quiet.run {l : List Char} (run : Run l) (quiet : Quiet g x) : Quiet g (l ++ x) := by
  induction run with
  | nil => exact quiet
  | cons piece _ ih =>
      rw [List.append_assoc]
      exact .layout piece ih

theorem Quiet.tail (quiet : Quiet g (c :: x)) (unblank : isBlank c = false)
    (other : c ≠ '/' ∧ c ≠ '"') : Quiet g x := by
  generalize whole : c :: x = y at quiet
  cases quiet with
  | nil => cases whole
  | layout piece others =>
      obtain ⟨d, s, rfl, blank | slash⟩ := piece.head
      all_goals cases whole
      · rw [blank] at unblank
        cases unblank
      · exact absurd slash other.1
  | plain _ _ others =>
      cases whole
      exact others
  | slash =>
      cases whole
      exact absurd rfl other.1
  | quoted =>
      cases whole
      exact absurd rfl other.2

theorem Quiet.unquoted (quiet : Quiet g ('"' :: x)) :
    ∃ t y, x = t ++ '"' :: y ∧ Quoted.isInside t = true ∧ Quiet g y := by
  generalize whole : '"' :: x = y at quiet
  cases quiet with
  | nil => cases whole
  | layout piece others =>
      obtain ⟨d, s, rfl, blank | slash⟩ := piece.head
      all_goals cases whole
      · cases blank
      · cases slash
  | plain _ other =>
      cases whole
      exact absurd rfl other.2
  | slash => cases whole
  | quoted inside others =>
      cases whole
      exact ⟨_, _, rfl, inside, others⟩

theorem behind_length_le (s : List Char) : (behind s).length ≤ s.length := by
  obtain ⟨read, reads⟩ := skip_reads ⟨s, 0⟩
  have split : s = read ++ behind s := reads.rest
  have sum := congrArg List.length split
  rw [List.length_append] at sum
  omega

theorem Quiet.tail_slash (quiet : Quiet g ('/' :: x)) (still : behind ('/' :: x ++ g) = '/' :: x ++ g) :
    Quiet g x := by
  generalize whole : '/' :: x = y at quiet still
  cases quiet with
  | nil => cases whole
  | @layout i z piece others =>
      rw [List.append_assoc, behind_piece piece] at still
      have shorter := behind_length_le (z ++ g)
      obtain ⟨d, s, rfl, _⟩ := piece.head
      rw [still] at shorter
      simp only [List.length_append, List.length_cons] at shorter
      omega
  | plain _ other =>
      cases whole
      exact absurd rfl other.1
  | slash _ others =>
      cases whole
      exact others
  | quoted => cases whole

theorem alone_append (alone : ∀ d ∈ (x ++ g).head?, d ≠ '/' ∧ d ≠ '*')
    (others : (∀ d ∈ g.head?, d ≠ '/' ∧ d ≠ '*') → ∀ d ∈ h.head?, d ≠ '/' ∧ d ≠ '*') :
    ∀ d ∈ (x ++ h).head?, d ≠ '/' ∧ d ≠ '*' := by
  cases x with
  | nil => exact others alone
  | cons e x => exact alone

theorem alone_blank (blank : ∀ d ∈ h.head?, isBlank d = true) : ∀ d ∈ h.head?, d ≠ '/' ∧ d ≠ '*' := by
  intro d next
  have isBlank := blank d next
  constructor
  all_goals
    rintro rfl
    cases isBlank

/-- Layout in the text is skipped as far as the text goes, or up to where the text goes on. -/
theorem Quiet.behind_cases (quiet : Quiet g x)
    (others : (∀ d ∈ g.head?, d ≠ '/' ∧ d ≠ '*') → ∀ d ∈ h.head?, d ≠ '/' ∧ d ≠ '*') :
    (behind (x ++ g) = behind g ∧ behind (x ++ h) = behind h) ∨
    ∃ y, y ≠ [] ∧ Quiet g y ∧ behind (x ++ g) = y ++ g ∧ behind (x ++ h) = y ++ h := by
  induction quiet with
  | nil => exact .inl ⟨rfl, rfl⟩
  | layout piece _ ih =>
      rw [List.append_assoc, List.append_assoc, behind_piece piece, behind_piece piece]
      exact ih
  | @plain c x unblank other quiet ih =>
      exact .inr ⟨c :: x, List.cons_ne_nil c x, .plain unblank other quiet,
        behind_unblank _ unblank other.1, behind_unblank _ unblank other.1⟩
  | @slash x alone quiet ih =>
      exact .inr ⟨'/' :: x, List.cons_ne_nil _ x, .slash alone quiet, behind_slash alone,
        behind_slash (alone_append alone others)⟩
  | @quoted t x inside quiet ih =>
      have noSlash : '"' ≠ '/' := by decide
      exact .inr ⟨_, List.cons_ne_nil _ _, .quoted inside quiet, behind_unblank _ rfl noSlash,
        behind_unblank _ rfl noSlash⟩

end Quiet

end Dil.Layout
