import Mathlib.Data.List.DropRight
import Dil.Text.Blank

namespace Dil.Text

/-- The core of a text stands between white space, and neither starts nor ends with any. -/
inductive Trims : List Char → List Char → Prop where
  | intro {front core back : List Char} (before : ∀ c ∈ front, isBlank c = true)
      (behind : ∀ c ∈ back, isBlank c = true) (start : ∀ c ∈ core.head?, isBlank c = false)
      (stop : ∀ c ∈ core.getLast?, isBlank c = false) : Trims (front ++ core ++ back) core

variable {s core front back : List Char}

theorem trimStart_append (before : ∀ c ∈ front, isBlank c = true)
    (start : ∀ c ∈ core.head?, isBlank c = false) : trimStart (front ++ core) = core := by
  rw [trimStart, List.dropWhile_append_of_pos before]
  cases core with
  | nil => rfl
  | cons c cs => simp [start c rfl]

theorem trimEnd_append (behind : ∀ c ∈ back, isBlank c = true)
    (stop : ∀ c ∈ core.getLast?, isBlank c = false) : trimEnd (core ++ back) = core := by
  have mirrored : trimStart (back.reverse ++ core.reverse) = core.reverse :=
    trimStart_append (by simpa using behind) (by simpa using stop)
  rw [trimStart, ← List.reverse_append] at mirrored
  rw [trimEnd, mirrored, List.reverse_reverse]

theorem Trims.trim (trims : Trims s core) : trim s = core := by
  obtain ⟨before, behind, start, stop⟩ := trims
  rename_i front back
  cases core with
  | nil =>
      -- Nothing but white space goes in one step, from the front.
      have blank : ∀ c ∈ front ++ back, isBlank c = true :=
        List.forall_mem_append.mpr ⟨before, behind⟩
      have none : trimStart (front ++ back ++ []) = [] := trimStart_append blank nofun
      rw [List.append_nil] at none
      rw [Text.trim, List.append_nil, none]
      rfl
  | cons c cs =>
      rw [Text.trim, List.append_assoc, trimStart_append before (by simpa using start),
        trimEnd_append behind stop]

theorem trims_trim (s : List Char) : Trims s (trim s) := by
  have front : s = s.takeWhile isBlank ++ trimStart s := List.takeWhile_append_dropWhile.symm
  have back : trimStart s = trim s ++ (trimStart s).rtakeWhile isBlank :=
    List.rdropWhile_append_rtakeWhile.symm
  have start : ∀ c ∈ (trim s).head?, isBlank c = false := by
    intro c first
    have same : (trimStart s).head? = some c := by
      rw [back, List.head?_append, first]
      rfl
    have stopped := List.head?_dropWhile_not isBlank s
    rw [show (s.dropWhile isBlank).head? = some c from same] at stopped
    simpa using stopped
  have stop : ∀ c ∈ (trim s).getLast?, isBlank c = false := by
    intro c last
    obtain ⟨nonempty, rfl⟩ := List.mem_getLast?_eq_getLast last
    have stopped := List.rdropWhile_last_not isBlank (trimStart s) nonempty
    exact Bool.eq_false_iff.mpr stopped
  have before : ∀ c ∈ s.takeWhile isBlank, isBlank c = true :=
    fun c member => List.mem_takeWhile_imp member
  have behind : ∀ c ∈ (trimStart s).rtakeWhile isBlank, isBlank c = true :=
    fun c member => List.mem_rtakeWhile_imp member
  have trims := Trims.intro before behind start stop
  rwa [List.append_assoc, ← back, ← front] at trims

theorem trim_eq_iff : trim s = core ↔ Trims s core :=
  ⟨fun trimmed => trimmed ▸ trims_trim s, Trims.trim⟩

end Dil.Text
