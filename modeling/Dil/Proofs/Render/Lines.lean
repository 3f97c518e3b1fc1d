import Dil.Proofs.Text.Quoted
import Dil.Render.Text

/-!
Values on lines. The text of a value has a line end exactly if a name in it has one, since names are
written as they are and nothing else that is written has line ends. Texts that are printed one after
the other, each with a line feed behind it, are the lines of the output exactly if none of them has a
line feed.
-/

namespace Dil

def Unbroken (cs : List Char) : Prop := ∀ c ∈ cs, c ≠ '\n' ∧ c ≠ '\r'

def OneLine (s : String) : Prop := Unbroken s.toList

instance (s : String) : Decidable (OneLine s) :=
  List.decidableBAll (fun c => c ≠ '\n' ∧ c ≠ '\r') s.toList

section Characters

variable {c : Char} {cs ds : List Char} {s t : String}

@[simp] theorem unbroken_nil : Unbroken [] := nofun

@[simp] theorem unbroken_cons : Unbroken (c :: cs) ↔ (c ≠ '\n' ∧ c ≠ '\r') ∧ Unbroken cs :=
  List.forall_mem_cons

@[simp] theorem unbroken_append : Unbroken (cs ++ ds) ↔ Unbroken cs ∧ Unbroken ds :=
  List.forall_mem_append

@[simp] theorem oneLine_append : OneLine (s ++ t) ↔ OneLine s ∧ OneLine t := by
  rw [OneLine, String.toList_append]
  exact unbroken_append

theorem oneLine_ofList : OneLine (String.ofList cs) ↔ Unbroken cs := by
  rw [OneLine, String.toList_ofList]

theorem oneLine_intercalate (separator : OneLine s) {ts : List String} :
    OneLine (s.intercalate ts) ↔ ∀ t ∈ ts, OneLine t := by
  induction ts with
  | nil => exact iff_of_true nofun nofun
  | cons t ts ih =>
      cases ts with
      | nil => simp [String.intercalate_singleton]
      | cons u us =>
          rw [String.intercalate_cons_cons, List.forall_mem_cons, ← ih]
          simp [separator]

end Characters

section Scalars

theorem unbroken_decimal (n : Nat) : Unbroken (Numeral.ofNat 10 n) := by
  intro c member
  have digit : c.isDigit = true := Numeral.isDigit_of_decimal member
  constructor <;> rintro rfl <;> cases digit

theorem oneLine_bool (b : Bool) : OneLine (boolText b) := by
  cases b <;> decide

theorem oneLine_int (n : Int64) : OneLine (int64Text n) := by
  rw [int64Text, oneLine_ofList, Numeral.ofInt]
  split <;> simp [unbroken_decimal]

theorem unbroken_positional (d : Decimal) : Unbroken (FloatStyle.positionalText d) := by
  have digits := unbroken_decimal d.digits
  have zeros (n : Nat) : Unbroken (FloatStyle.zeros n) := by
    intro c member
    obtain rfl := List.eq_of_mem_replicate member
    decide
  simp only [FloatStyle.positionalText]
  split
  · simp [digits, zeros]
  · split
    · have front n : Unbroken ((Numeral.ofNat 10 d.digits).take n) :=
        fun c member => digits c (List.mem_of_mem_take member)
      have back n : Unbroken ((Numeral.ofNat 10 d.digits).drop n) :=
        fun c member => digits c (List.mem_of_mem_drop member)
      simp [front, back]
    · simp [digits, zeros]

theorem oneLine_float (x : Float) : OneLine (FloatStyle.plain.text x) := by
  have magnitude (p : Binary64.Parts) : Unbroken (FloatStyle.plain.magnitudeText p) := by
    simp only [FloatStyle.magnitudeText]
    split
    · simp
    · exact unbroken_positional _
  simp only [FloatStyle.text]
  split
  · decide
  · split
    · split <;> decide
    · rw [oneLine_ofList]
      split <;> simp [magnitude]

theorem oneLine_quote (s : String) : OneLine (Quoted.quote s) := by
  have inside : Unbroken (Quoted.escape s.toList) := by
    intro c member
    have printable := (Quoted.sealed_escape s.toList).printable c member
    constructor <;> rintro rfl <;> cases printable
  have mark : OneLine "\"" := by decide
  simp [Quoted.quote, oneLine_ofList, inside, mark]

end Scalars

mutual

/-- The names that the text of a value has as they are: those of classes and of entries. -/
def Shown.names : Shown → List String
  | .null | .bool _ | .int _ | .float _ | .str _ | .cycle | .deep => []
  | .list items => itemNames items
  | .record className entries => className.toList ++ entryNames entries

def itemNames : List Shown → List String
  | [] => []
  | v :: vs => v.names ++ itemNames vs

def entryNames : List ShownEntry → List String
  | [] => []
  | .mk name v :: es => name :: (v.names ++ entryNames es)

end

theorem oneLine_braced {parts : List String} :
    OneLine (braced parts) ↔ ∀ t ∈ parts, OneLine t := by
  have brace : OneLine openBrace ∧ OneLine closeBrace := by decide
  rw [braced, oneLine_append, oneLine_append, oneLine_intercalate (by decide)]
  simp [brace]

mutual

theorem text_oneLine_iff : ∀ v : Shown, OneLine v.text ↔ ∀ name ∈ v.names, OneLine name
  | .null => iff_of_true (by decide) nofun
  | .bool b => iff_of_true (oneLine_bool b) nofun
  | .int n => iff_of_true (oneLine_int n) nofun
  | .float x => iff_of_true (oneLine_float x) nofun
  | .str s => iff_of_true (oneLine_quote s) nofun
  | .cycle => iff_of_true (by decide) nofun
  | .deep => iff_of_true (by decide) nofun
  | .list items => by
      have bracket : OneLine "[" ∧ OneLine "]" := by decide
      rw [Shown.text, oneLine_append, oneLine_append, oneLine_intercalate (by decide),
        itemTexts_oneLine_iff, Shown.names]
      simp [bracket]
  | .record none entries => by
      rw [Shown.text, oneLine_braced, entryTexts_oneLine_iff]
      rfl
  | .record (some className) entries => by
      have blank : OneLine " " := by decide
      rw [Shown.text, oneLine_append, oneLine_append, oneLine_braced, entryTexts_oneLine_iff,
        Shown.names, List.forall_mem_append]
      simp [blank]

theorem itemTexts_oneLine_iff : ∀ vs : List Shown,
    (∀ t ∈ itemTexts vs, OneLine t) ↔ ∀ name ∈ itemNames vs, OneLine name
  | [] => iff_of_true nofun nofun
  | v :: vs => by
      rw [itemTexts, itemNames, List.forall_mem_cons, List.forall_mem_append, text_oneLine_iff v,
        itemTexts_oneLine_iff vs]

theorem entryTexts_oneLine_iff : ∀ es : List ShownEntry,
    (∀ t ∈ entryTexts es, OneLine t) ↔ ∀ name ∈ entryNames es, OneLine name
  | [] => iff_of_true nofun nofun
  | .mk name v :: es => by
      have colon : OneLine ": " := by decide
      rw [entryTexts, entryNames, List.forall_mem_cons, List.forall_mem_cons,
        List.forall_mem_append, oneLine_append, oneLine_append, text_oneLine_iff v,
        entryTexts_oneLine_iff es]
      simp [colon, and_assoc]

end

def linesOf : List Char → List (List Char)
  | [] => []
  | c :: cs =>
    if c = '\n' then [] :: linesOf cs
    else
      match linesOf cs with
      | [] => [[c]]
      | l :: ls => (c :: l) :: ls

def outputLines (output : String) : List String := (linesOf output.toList).map String.ofList

section Lines

variable {cs : List Char} {ts : List String}

theorem linesOf_unfed (cs : List Char) : ∀ l ∈ linesOf cs, '\n' ∉ l := by
  induction cs with
  | nil => nofun
  | cons c cs ih =>
      rw [linesOf]
      split
      · exact List.forall_mem_cons.mpr ⟨List.not_mem_nil, ih⟩
      · rename_i other
        split
        · simpa using Ne.symm other
        · rename_i l ls lines
          rw [lines, List.forall_mem_cons] at ih
          simpa [Ne.symm other] using ih

theorem linesOf_line (line : '\n' ∉ cs) (rest : List Char) :
    linesOf (cs ++ '\n' :: rest) = cs :: linesOf rest := by
  induction cs with
  | nil => simp [linesOf]
  | cons c cs ih =>
      rw [List.mem_cons, not_or] at line
      rw [List.cons_append, linesOf, if_neg (Ne.symm line.1), ih line.2]

/-- Texts that are printed with a line feed behind each are the lines of the output exactly if none
has a line feed of its own. -/
theorem outputLines_iff :
    outputLines (String.join (ts.map (· ++ "\n"))) = ts ↔ ∀ t ∈ ts, '\n' ∉ t.toList := by
  constructor
  · intro lines t member
    rw [← lines] at member
    obtain ⟨l, among, rfl⟩ := List.mem_map.mp member
    rw [String.toList_ofList]
    exact linesOf_unfed _ l among
  · intro unfed
    induction ts with
    | nil => rfl
    | cons t ts ih =>
        rw [List.forall_mem_cons] at unfed
        have first : (String.join ((t :: ts).map (· ++ "\n"))).toList
            = t.toList ++ '\n' :: (String.join (ts.map (· ++ "\n"))).toList := by
          simp [String.toList_join]
        rw [outputLines, first, linesOf_line unfed.1, List.map_cons, String.ofList_toList]
        exact congrArg (t :: ·) (ih unfed.2)

end Lines

end Dil
