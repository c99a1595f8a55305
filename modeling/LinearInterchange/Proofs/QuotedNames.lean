import LinearInterchange.Format.Asp.Quoted
import LinearInterchange.Proofs.Parsing

/-!
# Reading quoted names

A name between quotes is read up to the first quote that is not escaped.  Every name can be quoted:
what stands between the quotes escapes all quotes of the name and leaves none of its backslashes to
the closing quote, so the name comes back whatever its characters are and whatever follows.
-/

namespace LinearInterchange.Asp

open Text Text.Parser

/-- The text after an opening quote up to the first quote that is not escaped, with the escapes
undone, and what follows that quote. -/
def unescape : List Char → Option (List Char × List Char)
  | [] => none
  | '"' :: rest => some ([], rest)
  | ['\\'] => none
  | '\\' :: c :: rest => (unescape rest).map (Prod.map (c :: ·) id)
  | c :: rest => (unescape rest).map (Prod.map (c :: ·) id)

/-- A backslash behind the text would escape nothing, and a character behind it is escaped: the text
ends in a backslash that is not escaped itself. -/
def endsInEscape (cs : List Char) : Bool :=
  cs.foldl (fun escaped c => c == '\\' && !escaped) false

/-- Reads a name between quotes. -/
def quotedName : Parser String := do
  char '"'
  String.ofList <$> (unescape : Parser (List Char))

/-- Other characters than quotes and backslashes stand for themselves. -/
lemma unescape_cons {c : Char} (hc : ¬(c = '"' ∨ c = '\\')) (rest : List Char) :
    unescape (c :: rest) = (unescape rest).map (Prod.map (c :: ·) id) := by
  rw [not_or] at hc
  rw [unescape]
  · exact hc.1
  · exact fun h _ => hc.2 h
  · exact fun _ _ h _ => hc.2 h

/-- An escaped name up to its closing quote is the name. -/
lemma unescape_escape (name rest : List Char) :
    unescape (escape name ++ '"' :: rest) = some (name, rest) := by
  induction name with
  | nil => rfl
  | cons c name ih =>
    rw [escape]
    split
    next =>
      rw [List.cons_append, List.cons_append, unescape, ih]
      rfl
    next hc =>
      rw [List.cons_append, unescape_cons hc, ih]
      rfl

/-- A quoted name is read whatever follows it. -/
lemma quotedName_append (name : String) (rest : List Char) :
    quotedName ((quoted name).toList ++ rest) = some (name, rest) := by
  have hread := map_of_eq_some (g := String.ofList) (unescape_escape name.toList rest)
  rw [quoted, String.toList_ofList, List.cons_append, List.cons_append, List.append_assoc,
    quotedName, bind_of_eq_some (char_cons _ _)]
  rwa [String.ofList_toList] at hread

lemma comment_nil : literal "% ".toList [] = none := rfl

/-! ## The closing quote -/

/-- Nothing after an escaped name is escaped by it. -/
lemma endsInEscape_escape (name : List Char) : endsInEscape (escape name) = false := by
  induction name with
  | nil => rfl
  | cons c name ih =>
    rw [escape]
    split
    next hc =>
      -- the character after the backslash is escaped, so that it escapes nothing itself
      rw [endsInEscape, List.foldl_cons, List.foldl_cons]
      rcases hc with rfl | rfl <;> exact ih
    next hc =>
      rw [not_or] at hc
      rw [endsInEscape, List.foldl_cons, beq_eq_false_iff_ne.2 hc.2]
      exact ih

/-- All quotes within an escaped name are escaped. -/
lemma endsInEscape_of_escape_eq {name before rest : List Char}
    (h : escape name = before ++ '"' :: rest) : endsInEscape before = true := by
  induction name generalizing before with
  | nil => exact absurd h (by simp [escape])
  | cons c name ih =>
    rw [escape] at h
    split at h
    next hc =>
      rcases before with _ | ⟨d, _ | ⟨e, before⟩⟩
      · cases h
      · rw [← (List.cons.inj h).1]
        rfl
      · obtain ⟨rfl, hrest⟩ := List.cons.inj h
        obtain ⟨rfl, htail⟩ := List.cons.inj hrest
        rw [endsInEscape, List.foldl_cons, List.foldl_cons]
        rcases hc with rfl | rfl <;> exact ih htail
    next hc =>
      rw [not_or] at hc
      rcases before with _ | ⟨d, before⟩
      · exact absurd (List.cons.inj h).1 hc.1
      · obtain ⟨rfl, htail⟩ := List.cons.inj h
        rw [endsInEscape, List.foldl_cons, beq_eq_false_iff_ne.2 hc.2]
        exact ih htail

end LinearInterchange.Asp
