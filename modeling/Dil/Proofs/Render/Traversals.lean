import Dil.Proofs.Render.Markers

namespace Dil

def ShownEntry.name : ShownEntry → String
  | mk name _ => name

/-- How a rendering writes what it comes to, given what it has written of the parts. -/
structure Writer where
  null : String
  bool : Bool → String
  int : Int64 → String
  float : Float → String
  str : String → String
  cycle : String
  deep : String
  list : List String → String
  record : Option String → List (String × String) → String

namespace Writer

def text : Writer where
  null := "null"
  bool := boolText
  int := int64Text
  float := FloatStyle.plain.text
  str := Quoted.quote
  cycle := cycleMark
  deep := depthMark
  list parts := "[" ++ ", ".intercalate parts ++ "]"
  record className parts :=
    (className.map (· ++ " ")).getD "" ++ braced (parts.map fun p => p.1 ++ ": " ++ p.2)

def json : Writer where
  null := "null"
  bool := boolText
  int := int64Text
  float := FloatStyle.json.text
  str := JsonText.quote
  cycle := JsonText.quote cycleMark
  deep := JsonText.quote depthMark
  list := JsonText.array
  record _ parts := JsonText.object (parts.map fun p => JsonText.quote p.1 ++ ":" ++ p.2)

def cell (W : Writer) (inside : Value → String) : Cell → String
  | .array items => W.list (items.map inside)
  | .map body => W.record none (body.entries.map fun e => (e.1, inside e.2))
  | .object body =>
    W.record (some body.className) (body.slots.entries.map fun e => (e.1, inside e.2.value))

structure Folds (W : Writer) (render : Shown → String) : Prop where
  null : render .null = W.null
  bool : ∀ b, render (.bool b) = W.bool b
  int : ∀ n, render (.int n) = W.int n
  float : ∀ x, render (.float x) = W.float x
  str : ∀ s, render (.str s) = W.str s
  cycle : render .cycle = W.cycle
  deep : render .deep = W.deep
  list : ∀ items, render (.list items) = W.list (items.map render)
  record : ∀ className entries, render (.record className entries)
    = W.record className (entries.map fun e => (e.name, render e.value))

variable {W : Writer} {render : Shown → String} {c : Cell} {f g : Value → String}

theorem cell_congr (agree : ∀ v ∈ c.values, f v = g v) : W.cell f c = W.cell g c := by
  cases c with
  | array items =>
      rw [values_array] at agree
      exact congrArg W.list (List.map_congr_left agree)
  | map body =>
      rw [values_map] at agree
      refine congrArg (W.record none) (List.map_congr_left fun e member => ?_)
      rw [agree e.2 (List.mem_map.mpr ⟨e, member, rfl⟩)]
  | object body =>
      rw [values_object] at agree
      refine congrArg (W.record _) (List.map_congr_left fun e member => ?_)
      have slot : e.2 ∈ body.slots.values := List.mem_map.mpr ⟨e, member, rfl⟩
      rw [agree e.2.value (List.mem_map.mpr ⟨e.2, slot, rfl⟩)]

theorem Folds.cell (folds : W.Folds render) (inside : Value → Shown) (c : Cell) :
    render (c.shown inside) = W.cell (fun v => render (inside v)) c := by
  cases c <;> simp [Cell.shown, Writer.cell, folds.list, folds.record, ShownEntry.name,
    ShownEntry.value, Function.comp_def]

theorem itemTexts_eq (items : List Shown) : itemTexts items = items.map Shown.text := by
  induction items with
  | nil => rfl
  | cons s ss ih => rw [itemTexts, ih, List.map_cons]

theorem itemJsons_eq (items : List Shown) : itemJsons items = items.map Shown.json := by
  induction items with
  | nil => rfl
  | cons s ss ih => rw [itemJsons, ih, List.map_cons]

theorem entryTexts_eq (entries : List ShownEntry) :
    entryTexts entries = entries.map fun e => e.name ++ ": " ++ e.value.text := by
  induction entries with
  | nil => rfl
  | cons e es ih =>
      obtain ⟨name, s⟩ := e
      rw [entryTexts, ih]
      rfl

theorem entryJsons_eq (entries : List ShownEntry) :
    entryJsons entries = entries.map fun e => JsonText.quote e.name ++ ":" ++ e.value.json := by
  induction entries with
  | nil => rfl
  | cons e es ih =>
      obtain ⟨name, s⟩ := e
      rw [entryJsons, ih]
      rfl

theorem folds_text : text.Folds Shown.text where
  null := rfl
  bool _ := rfl
  int _ := rfl
  float _ := rfl
  str _ := rfl
  cycle := rfl
  deep := rfl
  list items := by rw [Shown.text, itemTexts_eq, text]
  record className entries := by
    cases className <;> simp [Shown.text, entryTexts_eq, text, Function.comp_def]

theorem folds_json : json.Folds Shown.json where
  null := rfl
  bool _ := rfl
  int _ := rfl
  float _ := rfl
  str _ := rfl
  cycle := rfl
  deep := rfl
  list items := by rw [Shown.json, itemJsons_eq, json]
  record className entries := by simp [Shown.json, entryJsons_eq, json, Function.comp_def]

end Writer

namespace Heap

variable {W : Writer} {render : Shown → String} {h : Heap} {depth : Nat} {around : List Ref}
  {v : Value} {s : Shown} {t : String}

/-- What is written of a value inside the given composites, by the rules that stop a rendering and
without a tree in between. -/
inductive Renders (h : Heap) (W : Writer) (depth : Nat) : List Ref → Value → String → Prop where
  | null {around : List Ref} : Renders h W depth around .null W.null
  | bool {around : List Ref} {b : Bool} : Renders h W depth around (.bool b) (W.bool b)
  | int {around : List Ref} {n : Int64} : Renders h W depth around (.int n) (W.int n)
  | float {around : List Ref} {x : Float} : Renders h W depth around (.float x) (W.float x)
  | str {around : List Ref} {s : String} : Renders h W depth around (.str s) (W.str s)
  | cycle {around : List Ref} {r : Ref} (inside : r ∈ around) :
      Renders h W depth around (.ref r) W.cycle
  | deep {around : List Ref} {r : Ref} (outside : r ∉ around) (full : depth ≤ around.length) :
      Renders h W depth around (.ref r) W.deep
  | cell {around : List Ref} {r : Ref} {c : Cell} {inside : Value → String} (outside : r ∉ around)
      (room : around.length < depth) (found : h.cell? r = some c)
      (each : ∀ v ∈ c.values, Renders h W depth (r :: around) v (inside v)) :
      Renders h W depth around (.ref r) (W.cell inside c)

theorem Shows.renders (folds : W.Folds render) (shows' : h.Shows depth around v s) :
    h.Renders W depth around v (render s) := by
  induction shows' with
  | null => exact folds.null ▸ .null
  | bool => exact folds.bool _ ▸ .bool
  | int => exact folds.int _ ▸ .int
  | float => exact folds.float _ ▸ .float
  | str => exact folds.str _ ▸ .str
  | cycle inside => exact folds.cycle ▸ .cycle inside
  | deep outside full => exact folds.deep ▸ .deep outside full
  | cell outside room found each ih =>
      rw [folds.cell]
      exact .cell outside room found ih

/-- What is written is what is written of the tree. -/
theorem Renders.eq_render (folds : W.Folds render) (renders : h.Renders W depth around v t)
    (shows' : h.Shows depth around v s) : t = render s := by
  induction renders generalizing s with
  | null => cases shows'; exact folds.null.symm
  | bool => cases shows'; exact (folds.bool _).symm
  | int => cases shows'; exact (folds.int _).symm
  | float => cases shows'; exact (folds.float _).symm
  | str => cases shows'; exact (folds.str _).symm
  | cycle inside =>
      cases shows' with
      | cycle => exact folds.cycle.symm
      | deep outside => exact absurd inside outside
      | cell outside => exact absurd inside outside
  | deep outside full =>
      cases shows' with
      | cycle inside => exact absurd inside outside
      | deep => exact folds.deep.symm
      | cell _ room => omega
  | cell outside room found each ih =>
      cases shows' with
      | cycle inside => exact absurd inside outside
      | deep _ full => omega
      | cell _ _ found' parts =>
          cases found.symm.trans found'
          rw [folds.cell]
          exact Writer.cell_congr fun w member => ih w member (parts w member)

theorem renders_view (folds : W.Folds render) (closed : h.Closed) (held : h.Holds v) (t : String) :
    h.Renders W depth [] v t ↔ t = render (h.view depth v) := by
  have shows' : h.Shows depth [] v (h.view depth v) := (shows_view closed held _).mpr rfl
  constructor
  · intro renders
    exact renders.eq_render folds shows'
  · rintro rfl
    exact shows'.renders folds

end Heap

end Dil
