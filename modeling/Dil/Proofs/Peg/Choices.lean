import Dil.Proofs.Peg.Depth

namespace Dil

theorem dropWhile_stops {α : Type} {p : α → Bool} {l : List α} :
    ∀ x ∈ (l.dropWhile p).head?, p x = false := by
  intro x next
  have stopped := List.head?_dropWhile_not p l
  rw [next] at stopped
  simpa using stopped

theorem Cursor.past_past (c : Cursor) (s t s' t' : List Char) :
    (c.past s t).past s' t' = c.past (s ++ s') t' := by
  simp [Cursor.past, byteLength_append, Nat.add_assoc]

theorem Cursor.past_nil {c : Cursor} {t : List Char} (rest : c.rest = t) : c.past [] t = c := by
  cases c
  simpa [Cursor.past, byteLength] using rest.symm

theorem Cursor.takeBytes_append (s t : List Char) : takeBytes (byteLength s) (s ++ t) = s := by
  induction s with
  | nil => cases t <;> rfl
  | cons c cs ih =>
      obtain ⟨n, size⟩ := Nat.exists_eq_succ_of_ne_zero (Nat.ne_of_gt c.utf8Size_pos)
      have bytes : byteLength (c :: cs) = (n + byteLength cs) + 1 := by
        rw [byteLength, size]
        omega
      have left : n + byteLength cs + 1 - c.utf8Size = byteLength cs := by omega
      rw [bytes, List.cons_append, takeBytes, left, ih]
      simp

theorem Cursor.Reads.textUpTo {c d : Cursor} {s : List Char} (reads : c.Reads s d) :
    c.textUpTo d = s := by
  rw [Cursor.textUpTo, reads.offset, Nat.add_sub_cancel_left, reads.rest]
  exact takeBytes_append s d.rest

namespace Grammar

variable {ρ : Type} {g : Grammar ρ} {spaced : Bool} {c d : Cursor} {ts : List (Tree ρ)}

theorem settles_first {before after : List (Peg ρ)} {p : Peg ρ}
    (others : ∀ q ∈ before, g.Settles spaced q c .refused)
    (taken : g.Settles spaced p c (.matched ts d)) :
    g.Settles spaced (Peg.first (before ++ p :: after)) c (.matched ts d) := by
  induction before with
  | nil =>
      cases after with
      | nil => exact taken
      | cons q qs => exact .altFirst taken
  | cons q qs ih =>
      have rest := ih fun r member => others r (List.mem_cons_of_mem _ member)
      cases qs with
      | nil => exact .altSecond (others q List.mem_cons_self) rest
      | cons r rs => exact .altSecond (others q List.mem_cons_self) rest

theorem settles_first_refused {ps : List (Peg ρ)}
    (others : ∀ q ∈ ps, g.Settles spaced q c .refused) :
    g.Settles spaced (Peg.first ps) c .refused := by
  induction ps with
  | nil => exact .present .nothing
  | cons q qs ih =>
      have rest := ih fun r member => others r (List.mem_cons_of_mem _ member)
      cases qs with
      | nil => exact others q List.mem_cons_self
      | cons r rs => exact .altSecond (others q List.mem_cons_self) rest

theorem settles_first_some {ps : List (Peg ρ)}
    (each : ∀ q ∈ ps, g.Settles spaced q c .refused ∨ ∃ ts d, g.Settles spaced q c (.matched ts d))
    {p : Peg ρ} (member : p ∈ ps) (taken : g.Settles spaced p c (.matched ts d)) :
    ∃ us e, g.Settles spaced (Peg.first ps) c (.matched us e) := by
  induction ps with
  | nil => cases member
  | cons q qs ih =>
      cases each q List.mem_cons_self with
      | inr found =>
          obtain ⟨us, e, first⟩ := found
          cases qs with
          | nil => exact ⟨us, e, first⟩
          | cons r rs => exact ⟨us, e, .altFirst first⟩
      | inl refused =>
          have later : p ∈ qs := by
            cases member with
            | head => cases refused.unique taken
            | tail _ later => exact later
          obtain ⟨us, e, others⟩ := ih (fun r among => each r (List.mem_cons_of_mem _ among)) later
          cases qs with
          | nil => cases later
          | cons r rs => exact ⟨us, e, .altSecond refused others⟩

theorem settles_word {word rest : List Char} (next : c.rest = word ++ rest) :
    g.Settles spaced (.text word) c (.matched [] (c.past word rest)) :=
  .text (Cursor.read?_eq_some_iff.mpr (Cursor.past_reads next))

theorem settles_word_refused {word : List Char} (other : ¬ word <+: c.rest) :
    g.Settles spaced (.text word) c .refused :=
  .textRefused (Cursor.read?_eq_none_iff.mpr other)

theorem settles_words {before after : List String} {s : String} {rest : List Char}
    (others : ∀ r ∈ before, ¬ r.toList <+: c.rest) (next : c.rest = s.toList ++ rest) :
    g.Settles spaced (Peg.words (before ++ s :: after)) c (.matched [] (c.past s.toList rest)) := by
  rw [Peg.words, List.map_append, List.map_cons]
  refine settles_first ?_ (settles_word next)
  intro q member
  obtain ⟨r, found, rfl⟩ := List.mem_map.mp member
  exact settles_word_refused (others r found)

theorem settles_words_refused {ss : List String} (others : ∀ r ∈ ss, ¬ r.toList <+: c.rest) :
    g.Settles spaced (Peg.words ss) c .refused := by
  refine settles_first_refused fun q member => ?_
  obtain ⟨r, found, rfl⟩ := List.mem_map.mp member
  exact settles_word_refused (others r found)

theorem settles_char {accepts : Char → Bool} {x : Char} {xs : List Char} (next : c.rest = x :: xs)
    (accepted : accepts x = true) :
    g.Settles spaced (.char accepts) c (.matched [] (c.past [x] xs)) := .char next accepted

theorem settles_char_refused {accepts : Char → Bool}
    (refused : ∀ x ∈ c.rest.head?, accepts x = false) :
    g.Settles spaced (.char accepts) c .refused :=
  .charRefused fun x xs next => refused x (by simp [next])

theorem settles_more_chars {accepts : Char → Bool} {w rest : List Char}
    (all : ∀ x ∈ w, accepts x = true) (ends : ∀ x ∈ rest.head?, accepts x = false)
    (next : c.rest = w ++ rest) :
    g.Settles false (.more (.char accepts)) c (.matched [] (c.past w rest)) := by
  induction w generalizing c with
  | nil =>
      rw [List.nil_append] at next
      rw [Cursor.past_nil next]
      exact .moreNone (settles_char_refused (by simpa [skipIf, next] using ends))
  | cons x xs ih =>
      have others := ih (c := c.past [x] (xs ++ rest))
        (fun y member => all y (List.mem_cons_of_mem _ member)) rfl
      rw [Cursor.past_past] at others
      have here : (g.skipIf false c).rest = x :: (xs ++ rest) := next
      exact .more (.char here (all x List.mem_cons_self)) others

theorem settles_rule_refused {r : ρ}
    (refused : g.Settles ((g.kind r).spacing spaced) (g.body r) c .refused) :
    g.Settles spaced (.rule r) c .refused := .rule refused

theorem settles_token {r : ρ} (token : g.kind r = .token)
    (taken : g.Settles false (g.body r) c (.matched ts d)) :
    g.Settles spaced (.rule r) c (.matched [.leaf r (c.spanTo d) (c.textUpTo d)] d) := by
  have gathered : g.Settles spaced (.rule r) c ((Verdict.matched ts d).gather (g.kind r) r c) := by
    refine .rule ?_
    rw [token]
    exact taken
  rw [token] at gathered
  exact gathered

theorem settles_node {r : ρ} (kind : g.kind r = .spaced) (taken : g.Settles true (g.body r) c (.matched ts d)) :
    g.Settles true (.rule r) c (.matched [.node r (c.spanTo d) ts] d) := by
  have gathered : g.Settles true (.rule r) c ((Verdict.matched ts d).gather (g.kind r) r c) := by
    refine .rule ?_
    rw [kind]
    exact taken
  rw [kind] at gathered
  exact gathered

theorem settles_token_refused {r : ρ} (token : g.kind r = .token)
    (refused : g.Settles false (g.body r) c .refused) :
    g.Settles spaced (.rule r) c .refused := by
  refine settles_rule_refused ?_
  rw [token]
  exact refused

theorem Settles.seq_joined {a b : Peg ρ} {v : Verdict ρ}
    (first : g.Settles false a c (.matched ts d)) (second : g.Settles false b d v) :
    g.Settles false (.seq a b) c (v.after ts) := .seq first second

theorem Settles.star_of_more {a : Peg ρ} {v : Verdict ρ} (settles : g.Settles false (.more a) c v) :
    g.Settles false (.star a) c v := by
  cases settles with
  | more first others => exact .star first others
  | moreNone first => exact .starNone first

theorem settles_chars {accepts : Char → Bool} {w rest : List Char}
    (all : ∀ x ∈ w, accepts x = true) (ends : ∀ x ∈ rest.head?, accepts x = false)
    (next : c.rest = w ++ rest) :
    g.Settles false (.star (.char accepts)) c (.matched [] (c.past w rest)) :=
  (settles_more_chars all ends next).star_of_more

theorem settles_char_chars {starts accepts : Char → Bool} {x : Char} {xs rest : List Char}
    (start : starts x = true) (all : ∀ y ∈ xs, accepts y = true)
    (ends : ∀ y ∈ rest.head?, accepts y = false) (next : c.rest = x :: xs ++ rest) :
    g.Settles false (.seq (.char starts) (.star (.char accepts))) c
      (.matched [] (c.past (x :: xs) rest)) := by
  have first : g.Settles false (.char starts) c (.matched [] (c.past [x] (xs ++ rest))) :=
    settles_char next start
  have others := settles_chars (g := g) (c := c.past [x] (xs ++ rest)) all ends rfl
  rw [Cursor.past_past] at others
  exact .seq_joined first others

end Grammar

end Dil
