import Dil.Proofs.Render.Document
import Dil.Proofs.Render.Traversals

namespace Dil

namespace JsonText

variable {w : List Char} {j : Json} {n : Nat}

/-- A text that stands for one value wherever a document can have it, and is visible as a whole. -/
structure Written (w : List Char) (j : Json) : Prop where
  starts : ∃ c cs, w = c :: cs ∧ isBlank c = false ∧ c ≠ ']'
  visible : ∀ c ∈ w, 0x20 ≤ c.toNat
  reads : ∀ n rest, 2 * w.length < n → Ends rest → value n (w ++ rest) = some (j, rest)

theorem skip_cons {c : Char} (visible : isBlank c = false) (cs : List Char) :
    skip (c :: cs) = c :: cs :=
  List.dropWhile_cons_of_neg (by simp [visible])

theorem visible_of_isDigit {c : Char} (digit : c.isDigit = true) : 0x20 ≤ c.toNat := by
  simp only [Char.isDigit, Bool.and_eq_true, decide_eq_true_eq, ge_iff_le, UInt32.le_iff_toNat_le]
    at digit
  have low : ('0' : Char).val.toNat = 48 := rfl
  have same : c.toNat = c.val.toNat := rfl
  omega

theorem escapeChar_visible (c : Char) : ∀ d ∈ escapeChar c, 0x20 ≤ d.toNat := by
  unfold escapeChar
  split
  case h_8 =>
    split
    · rename_i control
      have high : c.toNat / 16 < 16 := by omega
      have low : c.toNat % 16 < 16 := by omega
      have digit (d : Nat) (small : d < 16) : 0x20 ≤ (Numeral.digitChar d).toNat := by
        interval_cases d <;> decide
      simp [digit _ high, digit _ low]
    · rename_i visible
      simpa using visible
  all_goals simp

theorem quote_toList (s : String) :
    (quote s).toList = '"' :: (s.toList.flatMap escapeChar ++ ['"']) := by
  simp [quote]

theorem quote_visible (s : String) : ∀ c ∈ (quote s).toList, 0x20 ≤ c.toNat := by
  intro c member
  rw [quote_toList, List.mem_cons, List.mem_append, List.mem_singleton, List.mem_flatMap] at member
  obtain rfl | ⟨d, _, escaped⟩ | rfl := member
  · decide
  · exact escapeChar_visible d c escaped
  · decide

theorem value_number {c : Char} (start : c = '-' ∨ c.isDigit = true) (cs : List Char) :
    value (n + 1) (c :: cs) = number (c :: cs) := by
  have other (d : Char) (sign : d ≠ '-') (digit : d.isDigit = false) : c ≠ d := by
    rintro rfl
    simp [sign, digit] at start
  have visible : isBlank c = false := by
    simp [isBlank, other]
  rw [value, skip_cons visible]
  split
  all_goals first | exact absurd (List.cons.inj ‹_›).1 (other _ (by decide) (by decide)) | rfl

theorem written_null : Written "null".toList .null where
  starts := ⟨_, _, rfl, rfl, by decide⟩
  visible := by simp
  reads n rest enough ends := by
    obtain ⟨k, rfl⟩ := Nat.exists_eq_succ_of_ne_zero (by omega : n ≠ 0)
    rfl

theorem written_bool (b : Bool) : Written (boolText b).toList (.bool b) where
  starts := by cases b <;> exact ⟨_, _, rfl, rfl, by decide⟩
  visible := by cases b <;> simp [boolText]
  reads n rest enough ends := by
    obtain ⟨k, rfl⟩ := Nat.exists_eq_succ_of_ne_zero (by omega : n ≠ 0)
    cases b <;> rfl

theorem written_quote (s : String) : Written (quote s).toList (.string s) where
  starts := ⟨'"', _, quote_toList s, rfl, by decide⟩
  visible := quote_visible s
  reads n rest enough ends := by
    obtain ⟨k, rfl⟩ := Nat.exists_eq_succ_of_ne_zero (by omega : n ≠ 0)
    rw [quote_toList, List.cons_append, List.append_assoc, value, skip_cons rfl]
    simp [string_escaped]

theorem ofInt_cons (n : Int) :
    ∃ c cs, Numeral.ofInt n = c :: cs ∧ (c = '-' ∨ c.isDigit = true) ∧
      ∀ d ∈ cs, d.isDigit = true := by
  have all : ∀ d ∈ Numeral.ofNat 10 n.natAbs, d.isDigit = true := fun _ => Numeral.isDigit_of_decimal
  by_cases negative : n < 0
  · exact ⟨'-', _, if_pos negative, .inl rfl, all⟩
  · obtain ⟨c, cs, text, digit⟩ := Numeral.ofNat_cons n.natAbs
    rw [text] at all
    exact ⟨c, cs, (if_neg negative).trans text, .inr digit, fun d member => all d (.tail c member)⟩

theorem number_start {c : Char} (start : c = '-' ∨ c.isDigit = true) :
    isBlank c = false ∧ c ≠ ']' ∧ 0x20 ≤ c.toNat := by
  obtain rfl | digit := start
  · decide
  · have other (d : Char) (mark : d.isDigit = false) : c ≠ d := by
      rintro rfl
      simp [mark] at digit
    exact ⟨by simp [isBlank, other], other ']' rfl, visible_of_isDigit digit⟩

theorem written_int (n : Int64) : Written (int64Text n).toList (.number n.toInt 0) := by
  obtain ⟨c, cs, text, start, digits⟩ := ofInt_cons n.toInt
  obtain ⟨unblank, other, visible⟩ := number_start start
  have whole : (int64Text n).toList = c :: cs := (String.toList_ofList).trans text
  rw [whole]
  refine ⟨⟨c, cs, rfl, unblank, other⟩, ?_, fun m rest enough ends => ?_⟩
  · intro d member
    cases member with
    | head => exact visible
    | tail _ later => exact visible_of_isDigit (digits d later)
  · obtain ⟨k, rfl⟩ := Nat.exists_eq_succ_of_ne_zero (by omega : m ≠ 0)
    rw [List.cons_append, value_number start, ← List.cons_append, ← text, number_ofInt _ ends]

section Composites

variable {α : Type} {text : α → List Char} {tree : α → Json} {name : α → String} {xs : List α}

def commaed (texts : List (List Char)) : List Char := [','].intercalate texts

def member (name : String) (w : List Char) : List Char := (quote name).toList ++ ':' :: w

theorem ends_comma (cs : List Char) : Ends (',' :: cs) := .inr ⟨_, _, rfl, .inl rfl⟩

theorem ends_bracket (cs : List Char) : Ends (']' :: cs) := .inr ⟨_, _, rfl, .inr (.inl rfl)⟩

theorem ends_brace (cs : List Char) : Ends ('}' :: cs) := .inr ⟨_, _, rfl, .inr (.inr rfl)⟩

theorem commaed_cons (w : List Char) {ws : List (List Char)} (some : ws ≠ []) :
    commaed (w :: ws) = w ++ ',' :: commaed ws := by
  obtain ⟨v, vs, rfl⟩ := List.exists_cons_of_ne_nil some
  simp [commaed, List.intercalate_cons_cons]

theorem commaed_start (w : List Char) (ws : List (List Char)) : ∃ t, commaed (w :: ws) = w ++ t := by
  by_cases last : ws = []
  · subst last
    exact ⟨[], by simp [commaed]⟩
  · exact ⟨_, commaed_cons w last⟩

/-- A reader of texts up to a closing mark reads those that were written with commas between them, if it
reads one text before the mark, and one before a comma with what follows. -/
theorem read_commaed {β : Type} {read : Nat → List Char → Option (List β × List Char)} {close : Char}
    {piece : α → β}
    (last : ∀ x ∈ xs, ∀ k rest, 2 * (text x).length < k →
      read (k + 1) (text x ++ close :: rest) = .some ([piece x], rest))
    (more : ∀ x ∈ xs, ∀ k rest, 2 * (text x).length < k →
      read (k + 1) (text x ++ ',' :: rest) = (read k rest).map fun found => (piece x :: found.1, found.2))
    (some : xs ≠ []) (enough : 2 * (commaed (xs.map text)).length + 1 < n) (rest : List Char) :
    read n (commaed (xs.map text) ++ close :: rest) = .some (xs.map piece, rest) := by
  induction xs generalizing n with
  | nil => exact absurd rfl some
  | cons x xs ih =>
      obtain ⟨k, rfl⟩ := Nat.exists_eq_succ_of_ne_zero (by omega : n ≠ 0)
      by_cases alone : xs = []
      · subst alone
        have single : commaed ([x].map text) = text x := by simp [commaed]
        rw [single] at enough ⊢
        exact last x List.mem_cons_self k rest (by omega)
      · have others : xs.map text ≠ [] := by simpa using alone
        rw [List.map_cons, commaed_cons _ others] at enough ⊢
        simp only [List.length_append, List.length_cons] at enough
        have tail := ih (n := k) (fun y later => last y (.tail x later))
          (fun y later => more y (.tail x later)) alone (by omega)
        rw [List.append_assoc, List.cons_append, more x List.mem_cons_self k _ (by omega), tail]
        rfl

theorem items_commaed (each : ∀ x ∈ xs, Written (text x) (tree x)) (some : xs ≠ [])
    (enough : 2 * (commaed (xs.map text)).length + 1 < n) (rest : List Char) :
    items n (commaed (xs.map text) ++ ']' :: rest) = .some (xs.map tree, rest) := by
  refine read_commaed (fun x among k rest room => ?_) (fun x among k rest room => ?_) some enough rest
  · rw [items, (each x among).reads k _ room (ends_bracket rest)]
    rfl
  · rw [items, (each x among).reads k _ room (ends_comma rest)]
    rfl

theorem named_member (s : String) (w rest : List Char) :
    named (member s w ++ rest) = some (s, w ++ rest) := by
  have quoted : member s w ++ rest
      = '"' :: (s.toList.flatMap escapeChar ++ '"' :: ':' :: (w ++ rest)) := by
    simp [member, quote_toList]
  rw [quoted, named, skip_cons rfl]
  simp only [string_escaped, Option.bind_some, String.ofList_toList]
  rfl

theorem members_commaed (each : ∀ x ∈ xs, Written (text x) (tree x)) (some : xs ≠ [])
    (enough : 2 * (commaed (xs.map fun x => member (name x) (text x))).length + 1 < n)
    (rest : List Char) :
    members n (commaed (xs.map fun x => member (name x) (text x)) ++ '}' :: rest)
      = .some (xs.map fun x => (name x, tree x), rest) := by
  have shorter {x : α} {k : Nat} (room : 2 * (member (name x) (text x)).length < k) :
      2 * (text x).length < k := by
    rw [member, List.length_append, List.length_cons] at room
    omega
  refine read_commaed (fun x among k rest room => ?_) (fun x among k rest room => ?_) some enough rest
  · rw [members, named_member, Option.bind_some]
    simp only
    rw [(each x among).reads k _ (shorter room) (ends_brace rest)]
    rfl
  · rw [members, named_member, Option.bind_some]
    simp only
    rw [(each x among).reads k _ (shorter room) (ends_comma rest)]
    rfl

theorem visible_commaed {ws : List (List Char)} (each : ∀ w ∈ ws, ∀ c ∈ w, 0x20 ≤ c.toNat) :
    ∀ c ∈ commaed ws, 0x20 ≤ c.toNat := by
  induction ws with
  | nil => exact nofun
  | cons w ws ih =>
      have rest := ih fun v later => each v (.tail w later)
      have first := each w List.mem_cons_self
      by_cases last : ws = []
      · subst last
        simpa [commaed] using first
      · rw [commaed_cons w last]
        intro c inside
        obtain here | rfl | later := (List.mem_append.mp inside).imp id List.mem_cons.mp
        · exact first c here
        · decide
        · exact rest c later

theorem value_array {c : Char} (unblank : isBlank c = false) (other : c ≠ ']') (cs : List Char) :
    value (n + 1) ('[' :: c :: cs) = (items n (c :: cs)).map fun (js, cs) => (.array js, cs) := by
  rw [value, skip_cons rfl]
  simp only [skip_cons unblank]
  split
  · exact absurd (List.cons.inj ‹_›).1 other
  · rfl

theorem visible_between {a b : Char} {w : List Char} (first : 0x20 ≤ a.toNat)
    (inside : ∀ c ∈ w, 0x20 ≤ c.toNat) (last : 0x20 ≤ b.toNat) :
    ∀ c ∈ a :: (w ++ [b]), 0x20 ≤ c.toNat := by
  intro c member
  rw [List.mem_cons, List.mem_append, List.mem_singleton] at member
  obtain rfl | within | rfl := member
  · exact first
  · exact inside c within
  · exact last

theorem written_array (each : ∀ x ∈ xs, Written (text x) (tree x)) :
    Written ('[' :: (commaed (xs.map text) ++ [']'])) (.array (xs.map tree)) where
  starts := ⟨'[', _, rfl, rfl, by decide⟩
  visible := by
    refine visible_between (by decide) (visible_commaed fun w member => ?_) (by decide)
    obtain ⟨x, inside, rfl⟩ := List.mem_map.mp member
    exact (each x inside).visible
  reads m rest enough ends := by
    obtain ⟨k, rfl⟩ := Nat.exists_eq_succ_of_ne_zero (by omega : m ≠ 0)
    rw [List.cons_append, List.append_assoc, List.singleton_append]
    by_cases empty : xs = []
    · subst empty
      rfl
    · have read := items_commaed (n := k) each empty (by simp at enough; omega) rest
      obtain ⟨x, ys, rfl⟩ := List.exists_cons_of_ne_nil empty
      obtain ⟨t, whole⟩ := commaed_start (text x) (ys.map text)
      obtain ⟨c, cs, start, unblank, other⟩ := (each x List.mem_cons_self).starts
      rw [List.map_cons, whole, start] at read ⊢
      exact (value_array unblank other _).trans (congrArg (Option.map _) read)

theorem value_object (cs : List Char) :
    value (n + 1) ('{' :: '"' :: cs)
      = (members n ('"' :: cs)).map fun (ms, cs) => (.object ms, cs) := by
  rw [value, skip_cons rfl]
  rfl

theorem written_object (each : ∀ x ∈ xs, Written (text x) (tree x)) :
    Written ('{' :: (commaed (xs.map fun x => member (name x) (text x)) ++ ['}']))
      (.object (xs.map fun x => (name x, tree x))) where
  starts := ⟨'{', _, rfl, rfl, by decide⟩
  visible := by
    refine visible_between (by decide) (visible_commaed fun w among c => ?_) (by decide)
    obtain ⟨x, inside, rfl⟩ := List.mem_map.mp among
    rw [member, List.mem_append, List.mem_cons]
    rintro (quoted | rfl | later)
    · exact quote_visible _ c quoted
    · decide
    · exact (each x inside).visible c later
  reads m rest enough ends := by
    obtain ⟨k, rfl⟩ := Nat.exists_eq_succ_of_ne_zero (by omega : m ≠ 0)
    rw [List.cons_append, List.append_assoc, List.singleton_append]
    by_cases empty : xs = []
    · subst empty
      rfl
    · have read : members k (commaed (xs.map fun x => member (name x) (text x)) ++ '}' :: rest)
          = some (xs.map fun x => (name x, tree x), rest) :=
        members_commaed each empty (by simp at enough; omega) rest
      obtain ⟨x, ys, rfl⟩ := List.exists_cons_of_ne_nil empty
      obtain ⟨t, whole⟩ := commaed_start (member (name x) (text x))
        (ys.map fun x => member (name x) (text x))
      rw [List.map_cons, whole, member, quote_toList] at read ⊢
      exact (value_object _).trans (congrArg (Option.map _) read)

end Composites

theorem Written.decode {document : String} (written : Written document.toList j) :
    decode document = some j := by
  have enough : 2 * document.toList.length < 2 * document.length + 1 := by
    rw [String.length_toList]
    omega
  have read := written.reads _ [] enough (.inl rfl)
  rw [List.append_nil] at read
  rw [JsonText.decode, read]
  rfl

end JsonText

mutual

/-- What a tree is in a document: its classes are left out, and its marks are strings. Floats, which
are written as rounded, are not meant. -/
def Shown.toJson : Shown → Json
  | .null => .null
  | .bool b => .bool b
  | .int n => .number n.toInt 0
  | .float _ => .null
  | .str s => .string s
  | .list items => .array (itemsToJson items)
  | .record _ entries => .object (entriesToJson entries)
  | .cycle => .string cycleMark
  | .deep => .string depthMark

def itemsToJson : List Shown → List Json
  | [] => []
  | s :: ss => s.toJson :: itemsToJson ss

def entriesToJson : List ShownEntry → List (String × Json)
  | [] => []
  | .mk name s :: es => (name, s.toJson) :: entriesToJson es

end

inductive Shown.Floatless : Shown → Prop where
  | null : Floatless .null
  | bool {b : Bool} : Floatless (.bool b)
  | int {n : Int64} : Floatless (.int n)
  | str {s : String} : Floatless (.str s)
  | list {items : List Shown} (each : ∀ s ∈ items, s.Floatless) : Floatless (.list items)
  | record {className : Option String} {entries : List ShownEntry}
      (each : ∀ e ∈ entries, e.value.Floatless) : Floatless (.record className entries)
  | cycle : Floatless .cycle
  | deep : Floatless .deep

section Trees

open JsonText

variable {s : Shown} {items : List Shown} {entries : List ShownEntry}

theorem itemsToJson_eq (items : List Shown) : itemsToJson items = items.map Shown.toJson := by
  induction items with
  | nil => rfl
  | cons s ss ih => rw [itemsToJson, ih, List.map_cons]

theorem entriesToJson_eq (entries : List ShownEntry) :
    entriesToJson entries = entries.map fun e => (e.name, e.value.toJson) := by
  induction entries with
  | nil => rfl
  | cons e es ih =>
      obtain ⟨name, s⟩ := e
      rw [entriesToJson, ih]
      rfl

theorem itemJsons_toList (items : List Shown) :
    (array (itemJsons items)).toList
      = '[' :: (commaed (items.map fun s => s.json.toList) ++ [']']) := by
  simp [array, commaed, Writer.itemJsons_eq, Function.comp_def]

theorem entryJsons_toList (entries : List ShownEntry) :
    (object (entryJsons entries)).toList
      = '{' :: (commaed (entries.map fun e => member e.name e.value.json.toList) ++ ['}']) := by
  simp [object, openBrace, closeBrace, commaed, Writer.entryJsons_eq, member, Function.comp_def]

theorem Shown.Floatless.written (floatless : s.Floatless) : Written s.json.toList s.toJson := by
  induction floatless with
  | null => exact written_null
  | bool => exact written_bool _
  | int => exact written_int _
  | str | cycle | deep => exact written_quote _
  | list each ih =>
      rw [json, itemJsons_toList, toJson, itemsToJson_eq]
      exact written_array ih
  | record each ih =>
      rw [json, entryJsons_toList, toJson, entriesToJson_eq]
      exact written_object ih

theorem Shown.floatless_of_parts (composite : s.isComposite = true)
    (each : ∀ part ∈ s.parts, part.Floatless) : s.Floatless := by
  cases s with
  | list items => exact .list each
  | record className entries =>
      exact .record fun e member => each e.value (List.mem_map.mpr ⟨e, member, rfl⟩)
  | _ => cases composite

theorem distinct_list (each : ∀ s ∈ items, s.toJson.Distinct) :
    (Shown.list items).toJson.Distinct := by
  rw [Shown.toJson, itemsToJson_eq]
  refine .array fun j member => ?_
  obtain ⟨s, inside, rfl⟩ := List.mem_map.mp member
  exact each s inside

theorem distinct_record {className : Option String} (names : (entries.map ShownEntry.name).Nodup)
    (each : ∀ e ∈ entries, e.value.toJson.Distinct) :
    (Shown.record className entries).toJson.Distinct := by
  rw [Shown.toJson, entriesToJson_eq]
  refine .object (by simpa [Function.comp_def] using names) fun m member => ?_
  obtain ⟨e, inside, rfl⟩ := List.mem_map.mp member
  exact each e inside

end Trees

namespace Heap

variable {h : Heap} {v : Value} {s : Shown} {around : List Ref} {depth : Nat} {r : Ref} {c : Cell}

structure Floatless (h : Heap) (v : Value) : Prop where
  value : ∀ x, v ≠ .float x
  cells : ∀ r c, h.Reaches v r → h.cell? r = some c → ∀ w ∈ c.values, ∀ x, w ≠ .float x

theorem Floatless.part {w : Value} (floatless : h.Floatless (.ref r)) (found : h.cell? r = some c)
    (member : w ∈ c.values) : h.Floatless w where
  value := floatless.cells r c (.here r) found w member
  cells q d reaches there := floatless.cells q d (.part found member reaches) there

theorem Shows.floatless (shows' : h.Shows depth around v s) (floatless : h.Floatless v) :
    s.Floatless := by
  induction shows' with
  | float => exact absurd rfl (floatless.value _)
  | @cell around r c inside outside room found each ih =>
      refine Shown.floatless_of_parts (by cases c <;> rfl) fun part member => ?_
      rw [Cell.shown_parts] at member
      obtain ⟨w, here, rfl⟩ := List.mem_map.mp member
      exact ih w here (floatless.part found here)
  | _ => constructor

theorem Shows.distinct (shows' : h.Shows depth around v s) : s.toJson.Distinct := by
  induction shows' with
  | @cell around r c inside outside room found each ih =>
      have parts : ∀ part ∈ (c.shown inside).parts, part.toJson.Distinct := by
        rw [Cell.shown_parts]
        intro part member
        obtain ⟨w, here, rfl⟩ := List.mem_map.mp member
        exact ih w here
      have entry (className : Option String) (entries : List ShownEntry)
          (same : c.shown inside = .record className entries) :
          ∀ e ∈ entries, e.value.toJson.Distinct := fun e member =>
        parts e.value (same ▸ List.mem_map.mpr ⟨e, member, rfl⟩)
      cases c with
      | array items => exact distinct_list parts
      | map body =>
          refine distinct_record ?_ (entry _ _ rfl)
          simpa [Function.comp_def, ShownEntry.name] using body.distinct
      | object body =>
          refine distinct_record ?_ (entry _ _ rfl)
          simpa [Function.comp_def, ShownEntry.name] using body.slots.distinct
  | _ => constructor

/-- The text and the JSON of a value are those of one tree, whether they are written of the tree or
on the way through the heap. The JSON is a document for the tree, of visible characters only. -/
theorem renderings_agree (closed : h.Closed) (held : h.Holds v) (floatless : h.Floatless v)
    (depth : Nat) :
    ∃ tree : Shown, (∀ s, h.Shows depth [] v s ↔ s = tree) ∧
      (∀ t, h.Renders .text depth [] v t ↔ t = tree.text) ∧
      (∀ t, h.Renders .json depth [] v t ↔ t = tree.json) ∧
      (h.view depth v).text = tree.text ∧ (h.view depth v).json = tree.json ∧
      JsonText.decode tree.json = some tree.toJson ∧ tree.toJson.Distinct ∧
      ∀ c ∈ tree.json.toList, 0x20 ≤ c.toNat := by
  have shows' : h.Shows depth [] v (h.view depth v) := (shows_view closed held _).mpr rfl
  have written := (shows'.floatless floatless).written
  refine ⟨h.view depth v, shows_view closed held, ?_, ?_, rfl, rfl, ?_, ?_, ?_⟩
  · exact renders_view Writer.folds_text closed held
  · exact renders_view Writer.folds_json closed held
  · exact written.decode
  · exact shows'.distinct
  · exact written.visible

def quotedRing : Heap :=
  ⟨#[[.ref (.map 0), .ref (.array 0)]],
    #[⟨[("\"\n", .int (-7)), ("b", .str "\x01")], by decide⟩], #[]⟩

theorem quotedRing_cell (found : quotedRing.cell? r = some c) :
    c.values = [.ref (.map 0), .ref (.array 0)] ∨ c.values = [.int (-7), .str "\x01"] := by
  have inside := cell_inRange found
  cases r with
  | array i =>
      obtain rfl := Nat.lt_one_iff.mp inside
      exact .inl (Option.some.inj found ▸ rfl)
  | map i =>
      obtain rfl := Nat.lt_one_iff.mp inside
      exact .inr (Option.some.inj found ▸ rfl)
  | object i => exact absurd inside (Nat.not_lt_zero i)

theorem quoted_ring_agrees :
    let ring : Value := .ref (.array 0)
    quotedRing.Closed ∧ quotedRing.Holds ring ∧ quotedRing.Floatless ring ∧
    (∀ t, quotedRing.Renders .text 2 [] ring t ↔
      t = "[\x7b\"\n: -7, b: \"\\u\x7b1\x7d\"\x7d, <cycle>]") ∧
    JsonText.decode "[\x7b\"\\\"\\n\":-7,\"b\":\"\\u0001\"\x7d,\"<cycle>\"]"
      = some (.array [.object [("\"\n", .number (-7) 0), ("b", .string "\x01")],
          .string "<cycle>"]) := by
  intro ring
  have held : ∀ r : Ref, r = .map 0 ∨ r = .array 0 → quotedRing.Holds (.ref r) := by
    rintro r (rfl | rfl) <;> exact (holds_ref _ _).mpr (show 0 < 1 by decide)
  have closed : quotedRing.Closed := by
    intro r c found v member
    obtain values | values := quotedRing_cell found
    · rw [values] at member
      obtain rfl | rfl := by simpa using member
      · exact held _ (.inl rfl)
      · exact held _ (.inr rfl)
    · rw [values] at member
      obtain rfl | rfl := by simpa using member
      · exact holds_scalar _ _ nofun
      · exact holds_scalar _ _ nofun
  have floatless : quotedRing.Floatless ring := by
    refine ⟨nofun, fun r c _ found v member x => ?_⟩
    obtain values | values := quotedRing_cell found <;> rw [values] at member <;>
      obtain rfl | rfl := by simpa using member
    all_goals exact nofun
  have inside : quotedRing.Holds ring := held _ (.inr rfl)
  obtain ⟨tree, shown, text, _, _, _, document, _⟩ := renderings_agree closed inside floatless 2
  obtain rfl : quotedRing.view 2 ring = tree := (shown _).mp ((shows_view closed inside _).mpr rfl)
  exact ⟨closed, inside, floatless, text, document⟩

end Heap

end Dil
