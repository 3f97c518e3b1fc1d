import Dil.Layout
import Dil.Proofs.Peg.Depth

namespace Dil.Layout

theorem blank_size {c : Char} (blank : isBlank c = true) : c.utf8Size = 1 := by
  simp only [isBlank, Bool.or_eq_true, beq_iff_eq] at blank
  rcases blank with ((rfl | rfl) | rfl) | rfl <;> rfl

theorem reads_char (c : Char) (cs : List Char) (n : Nat) :
    Cursor.Reads ⟨c :: cs, n⟩ [c] ⟨cs, n + c.utf8Size⟩ := ⟨rfl, by simp [byteLength]⟩

theorem reads_pair (c d : Char) (cs : List Char) (n : Nat)
    (sizes : c.utf8Size = 1 ∧ d.utf8Size = 1) :
    Cursor.Reads ⟨c :: d :: cs, n⟩ [c, d] ⟨cs, n + 2⟩ :=
  ⟨rfl, by simp [byteLength, sizes.1, sizes.2]⟩

/-- Whatever the reader does, it goes on from its start, or back to the start of an open comment. -/
theorem scan_reads (mode : Mode) (s : List Char) (n : Nat) (start : Cursor) {read : List Char}
    (before : start.Reads read ⟨s, n⟩)
    (opening : ∀ opened, mode = .block opened → ∃ t, start.Reads t opened) :
    ∃ t, start.Reads t (scan mode s n) := by
  fun_induction scan mode s n generalizing read with
  | case1 n => exact ⟨read, before⟩
  | case2 c cs n blank ih =>
      have step := reads_char c cs n
      rw [blank_size blank] at step
      exact ih (before.trans step) nofun
  | case3 n ds _ ih => exact ih (before.trans (reads_pair _ _ ds n ⟨rfl, rfl⟩)) nofun
  | case4 n ds _ ih =>
      apply ih (before.trans (reads_pair _ _ ds n ⟨rfl, rfl⟩))
      rintro _ ⟨⟩
      exact ⟨read, before⟩
  | case5 cs n | case6 c cs n => exact ⟨read, before⟩
  | case7 n => exact ⟨read, before⟩
  | case8 c cs n ih =>
      apply ih (before.trans (reads_char c cs n))
      intro opened block
      split at block <;> cases block
  | case9 opened n => exact opening opened rfl
  | case10 opened cs n ih => exact ih (before.trans (reads_pair _ _ cs n ⟨rfl, rfl⟩)) nofun
  | case11 opened c cs n _ ih => exact ih (before.trans (reads_char c cs n)) opening

theorem skip_reads (c : Cursor) : ∃ s, c.Reads s (skip c) :=
  scan_reads .between c.rest c.offset c (.refl c) nofun

theorem scan_blank {c : Char} (cs : List Char) (n : Nat) (blank : isBlank c = true) :
    scan .between (c :: cs) n = scan .between cs (n + 1) := by
  rw [scan.eq_def]
  simp [blank]

theorem scan_unblank {c : Char} (cs : List Char) (n : Nat) (unblank : isBlank c = false)
    (noSlash : c ≠ '/') : scan .between (c :: cs) n = ⟨c :: cs, n⟩ := by
  unfold scan
  simp [unblank, noSlash]

/-- A reader that has stopped would not go on. In a block comment it has not stopped yet, and what
becomes of it is what becomes of a reader before the comment. -/
theorem scan_stopped (mode : Mode) (s : List Char) (n : Nat)
    (opening : ∀ opened, mode = .block opened → skip opened = scan mode s n) :
    skip (scan mode s n) = scan mode s n := by
  fun_induction scan mode s n with
  | case1 n => rfl
  | case2 c cs n _ ih | case3 n ds _ ih => exact ih nofun
  | case4 n ds _ ih =>
      apply ih
      rintro _ ⟨⟩
      simp [skip, scan, isBlank]
  | case5 cs n line block unblank =>
      simp only [skip, scan, unblank]
      split <;> simp_all
  | case6 c cs n unblank other => exact scan_unblank cs n (by simpa using unblank) other
  | case7 n => rfl
  | case8 c cs n ih =>
      apply ih
      intro opened block
      split at block <;> cases block
  | case9 opened n => exact opening opened rfl
  | case10 opened cs n ih => exact ih nofun
  | case11 opened c cs n other ih =>
      apply ih
      rintro _ ⟨⟩
      rw [opening opened rfl]

theorem skip_skip (c : Cursor) : skip (skip c) = skip c :=
  scan_stopped .between c.rest c.offset nofun

def moved (k : Nat) (c : Cursor) : Cursor := ⟨c.rest, c.offset + k⟩

def Mode.moved (k : Nat) : Mode → Mode
  | .block opened => .block (Layout.moved k opened)
  | mode => mode

theorem scan_moved (mode : Mode) (s : List Char) (n k : Nat) :
    scan (mode.moved k) s (n + k) = moved k (scan mode s n) := by
  fun_induction scan mode s n with
  | case1 n | case7 n | case9 opened n => rfl
  | case2 c cs n blank ih =>
      rw [← ih, Nat.add_right_comm]
      exact scan_blank cs _ blank
  | case3 n ds _ ih => 
      rw [← ih]
      simp [Mode.moved, scan, isBlank, Nat.add_right_comm]
  | case4 n ds _ ih => 
      rw [← ih]
      simp [Mode.moved, scan, isBlank, Nat.add_right_comm, Layout.moved]
  | case5 cs n line block unblank =>
      simp only [Mode.moved, Layout.moved]
      unfold scan
      split <;> simp_all
  | case6 c cs n unblank other => exact scan_unblank cs _ (by simpa using unblank) other
  | case8 c cs n ih =>
      rw [← ih, Nat.add_right_comm]
      by_cases ends : endsLine c = true <;> simp [Mode.moved, scan, ends]
  | case10 opened cs n ih =>
      rw [← ih, Mode.moved, scan, Nat.add_right_comm]
      rfl
  | case11 opened c cs n other ih =>
      rw [← ih, Mode.moved, scan, Nat.add_right_comm]
      exact other

def behind (s : List Char) : List Char := (skip ⟨s, 0⟩).rest

theorem skip_rest (c : Cursor) : (skip c).rest = behind c.rest := by
  have same : scan .between c.rest (0 + c.offset) = moved c.offset (scan .between c.rest 0) :=
    scan_moved .between c.rest 0 c.offset
  rw [Nat.zero_add] at same
  rw [skip, same]
  rfl

theorem behind_behind (s : List Char) : behind (behind s) = behind s := by
  have stopped := skip_skip ⟨s, 0⟩
  rw [← skip_rest ⟨behind s, (skip ⟨s, 0⟩).offset⟩]
  exact congrArg Cursor.rest stopped

@[simp] theorem behind_nil : behind [] = [] := rfl

@[simp] theorem behind_space (s : List Char) : behind (' ' :: s) = behind s := by
  rw [← skip_rest ⟨s, 1⟩, behind, skip, scan_blank s 0 rfl]
  rfl

theorem behind_unblank {c : Char} (cs : List Char) (unblank : isBlank c = false)
    (noSlash : c ≠ '/') : behind (c :: cs) = c :: cs := by
  rw [behind, skip, scan_unblank cs 0 unblank noSlash]

theorem behind_slash {cs : List Char} (alone : ∀ d ∈ cs.head?, d ≠ '/' ∧ d ≠ '*') :
    behind ('/' :: cs) = '/' :: cs := by
  rw [behind, skip]
  cases cs with
  | nil => rfl
  | cons d ds =>
      have other := alone d rfl
      unfold scan
      simp [isBlank]
      grind

end Dil.Layout
