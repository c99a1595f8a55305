import LinearInterchange.Text.Blank
import LinearInterchange.Text.Parser
import Mathlib.Tactic.Lemma

/-!
# Parsers on texts of a known form

Parsers take the longest run of a class of characters and never go back, so what a parser does on a
text depends on the first character that follows.  `Text.Stops` is the condition on what follows;
each lemma gives the value of a parser on a text that begins with the characters it accepts.
-/

namespace LinearInterchange.Text

/-- The text does not begin with a character of the class. -/
def Stops (p : Char → Bool) (cs : List Char) : Prop :=
  ∀ c ∈ cs.head?, p c = false

lemma stops_nil (p : Char → Bool) : Stops p [] := by
  simp [Stops]

lemma stops_cons {p : Char → Bool} {c : Char} {cs : List Char} (h : p c = false) :
    Stops p (c :: cs) := by
  simpa [Stops] using h

lemma stops_append {p : Char → Bool} {w : List Char} (h : w.head?.any (fun c => !p c) = true)
    (rest : List Char) : Stops p (w ++ rest) := by
  cases w with
  | nil => cases h
  | cons c w => exact stops_cons (by simpa using h)

/-- A text does not begin with a character of a part of a class that it does not begin with. -/
lemma Stops.of_part {p q : Char → Bool} {cs : List Char} (h : Stops p cs)
    (hpart : ∀ c, q c = true → p c = true) : Stops q cs := by
  intro c hc
  rw [← Bool.not_eq_true]
  intro hq
  exact Bool.false_ne_true ((h c hc).symm.trans (hpart c hq))

/-- The longest run of a class ends where the class does. -/
lemma takeWhile_append {p : Char → Bool} {w rest : List Char} (hw : ∀ c ∈ w, p c = true)
    (hrest : Stops p rest) : (w ++ rest).takeWhile p = w := by
  rw [List.takeWhile_append_of_pos hw]
  cases rest with
  | nil => rw [List.takeWhile_nil, List.append_nil]
  | cons c rest =>
    rw [List.takeWhile_cons_of_neg (by simp [hrest c rfl]), List.append_nil]

/-- What follows the longest run of a class begins where the class ends. -/
lemma dropWhile_append {p : Char → Bool} {w rest : List Char} (hw : ∀ c ∈ w, p c = true)
    (hrest : Stops p rest) : (w ++ rest).dropWhile p = rest := by
  rw [List.dropWhile_append_of_pos hw]
  cases rest with
  | nil => rfl
  | cons c rest => rw [List.dropWhile_cons_of_neg (by simp [hrest c rfl])]

/-- A character of a class is none of those outside of it. -/
lemma bne_of_class {p : Char → Bool} {sep : Char} (hsep : p sep = false) (c : Char)
    (hc : p c = true) : (c != sep) = true := by
  rw [bne_iff_ne]
  rintro rfl
  rw [hsep] at hc
  cases hc

lemma takeWhile_of_stops {p : Char → Bool} {rest : List Char} (h : Stops p rest) :
    rest.takeWhile p = [] :=
  takeWhile_append (List.forall_mem_nil _) h

lemma dropWhile_of_stops {p : Char → Bool} {rest : List Char} (h : Stops p rest) :
    rest.dropWhile p = rest :=
  dropWhile_append (List.forall_mem_nil _) h

/-- The texts differ at a place that both of them have. -/
def differ (v w : List Char) : Bool :=
  (v.zip w).any fun p => p.1 != p.2

/-! ## Trimming and cutting -/

/-- A text that ends without white space is what is left of it and white space after it. -/
lemma trimRight_append {w blanks : List Char} (hblanks : ∀ c ∈ blanks, isBlank c = true)
    (hw : Stops isBlank w.reverse) : trimRight (w ++ blanks) = w := by
  rw [trimRight, List.reverse_append,
    dropWhile_append (fun c hc => hblanks c (List.mem_reverse.1 hc)) hw, List.reverse_reverse]

/-- A text without characters of the class is not cut. -/
lemma splitFirst_eq_none {p : Char → Bool} {cs : List Char} (h : ∀ c ∈ cs, p c = false) :
    splitFirst p cs = none := by
  induction cs with
  | nil => rfl
  | cons c cs ih =>
    rw [splitFirst, if_neg (by simp [h c List.mem_cons_self]),
      ih fun d hd => h d (List.mem_cons_of_mem _ hd), Option.map_none]

/-- A text is cut at the first character of the class. -/
lemma splitFirst_append {p : Char → Bool} {l r : List Char} {c : Char}
    (h : ∀ d ∈ l, p d = false) (hc : p c = true) : splitFirst p (l ++ c :: r) = some (l, r) := by
  induction l with
  | nil => rw [List.nil_append, splitFirst, if_pos hc]
  | cons d l ih =>
    rw [List.cons_append, splitFirst, if_neg (by simp [h d List.mem_cons_self]),
      ih fun e he => h e (List.mem_cons_of_mem _ he), Option.map_some]

namespace Parser

variable {α β : Type} {p q : Parser α} {f : α → Parser β} {a : α} {cs rest : List Char}

/-! ## Combinators -/

lemma bind_of_eq_some (h : p cs = some (a, rest)) : (p >>= f) cs = f a rest := by
  show (p cs).bind (fun r => f r.1 r.2) = f a rest
  rw [h, Option.bind_some]

lemma bind_of_eq_none (h : p cs = none) : (p >>= f) cs = none := by
  show (p cs).bind (fun r => f r.1 r.2) = none
  rw [h, Option.bind_none]

lemma map_of_eq_some {g : α → β} (h : p cs = some (a, rest)) :
    (g <$> p) cs = some (g a, rest) := by
  show (p cs).bind (fun r => some (g r.1, r.2)) = some (g a, rest)
  rw [h, Option.bind_some]

lemma map_of_eq_none {g : α → β} (h : p cs = none) : (g <$> p) cs = none := by
  show (p cs).bind (fun r => some (g r.1, r.2)) = none
  rw [h, Option.bind_none]

/-- The first alternative that applies is taken. -/
lemma orElse_of_eq_some (h : p cs = some (a, rest)) : (p <|> q) cs = some (a, rest) := by
  show (p cs <|> q cs) = some (a, rest)
  rw [h]
  rfl

lemma orElse_of_eq_none (h : p cs = none) : (p <|> q) cs = q cs := by
  show (p cs <|> q cs) = q cs
  rw [h]
  rfl

lemma optional?_of_eq_some (h : p cs = some (a, rest)) : optional? p cs = some (some a, rest) := by
  rw [optional?, h]

lemma optional?_of_eq_none (h : p cs = none) : optional? p cs = some (none, cs) := by
  rw [optional?, h]

/-- The text that is accepted is what stands before the rest. -/
lemma accepted_append {w : List Char} (h : p (w ++ rest) = some (a, rest)) :
    accepted p (w ++ rest) = some (w, rest) := by
  rw [accepted, h]
  show some ((w ++ rest).take ((w ++ rest).length - rest.length), rest) = some (w, rest)
  rw [List.length_append, Nat.add_sub_cancel, List.take_left]

lemma many_of_eq_none (h : p cs = none) : many p cs = some ([], cs) := by
  rw [many, many.go, h]

/-- A repetition goes on after what its parser accepts. -/
lemma many_of_eq_some {as : List α} {cs' : List Char} (h : p cs = some (a, rest))
    (hlt : rest.length < cs.length) (hrest : many p rest = some (as, cs')) :
    many p cs = some (a :: as, cs') := by
  have hgo : many.go p rest = (as, cs') := Option.some.inj hrest
  rw [many, many.go, h]
  simp only [if_pos hlt, hgo]

/-- A list of values begins with one, and goes on with separators and values. -/
lemma sepBy_of_eq_some {separator : Parser Unit} {as : List α} {ds : List Char}
    (h : p cs = some (a, ds)) (hmany : many (separator >>= fun _ => p) ds = some (as, rest)) :
    sepBy separator p cs = some (a :: as, rest) := by
  rw [sepBy, bind_of_eq_some (optional?_of_eq_some h)]
  exact bind_of_eq_some hmany

lemma sepBy_of_eq_none {separator : Parser Unit} (h : p cs = none) :
    sepBy separator p cs = some ([], cs) := by
  rw [sepBy, bind_of_eq_some (optional?_of_eq_none h)]
  rfl

lemma parseWhole?_eq_some (h : p cs = some (a, [])) : parseWhole? p cs = some a := by
  have hparse : parse p cs = some (a, []) := h
  rw [parseWhole?, hparse]

/-! ## Characters and runs -/

lemma satisfy_cons {class_ : Char → Bool} {c : Char} (h : class_ c = true) :
    satisfy class_ (c :: cs) = some (c, cs) :=
  if_pos h

lemma satisfy_of_stops {class_ : Char → Bool} (h : Stops class_ cs) : satisfy class_ cs = none := by
  cases cs with
  | nil => rfl
  | cons c cs => exact if_neg (by simp [h c rfl])

lemma char_cons (c : Char) (cs : List Char) : char c (c :: cs) = some ((), cs) :=
  map_of_eq_some (satisfy_cons (by simp))

lemma char_of_stops {c : Char} (h : Stops (· == c) cs) : char c cs = none :=
  map_of_eq_none (satisfy_of_stops h)

lemma literal_append (w cs : List Char) : literal w (w ++ cs) = some ((), cs) := by
  induction w with
  | nil => rfl
  | cons c w ih =>
    rw [literal, List.cons_append, bind_of_eq_some (char_cons c _), ih]

/-- A given word is accepted where the text begins with it. -/
lemma isSome_literal (w cs : List Char) : (literal w cs).isSome = w.isPrefixOf cs := by
  induction w generalizing cs with
  | nil => rfl
  | cons c w ih =>
    cases cs with
    | nil => rfl
    | cons d cs =>
      rw [literal, List.isPrefixOf]
      by_cases hd : d = c
      · subst hd
        rw [bind_of_eq_some (char_cons d _), ih, beq_self_eq_true, Bool.true_and]
      · rw [bind_of_eq_none (char_of_stops (stops_cons (beq_eq_false_iff_ne.2 hd))),
          beq_eq_false_iff_ne.2 (Ne.symm hd), Bool.false_and, Option.isSome_none]

/-- A given word is not accepted where the text differs from it. -/
lemma literal_eq_none {w v : List Char} (h : differ w v = true) (cs : List Char) :
    literal w (v ++ cs) = none := by
  induction w generalizing v with
  | nil => cases h
  | cons c w ih =>
    cases v with
    | nil => cases h
    | cons d v =>
      rw [literal, List.cons_append]
      by_cases hd : d = c
      · subst hd
        rw [bind_of_eq_some (char_cons d _)]
        exact ih (by simpa [differ] using h)
      · exact bind_of_eq_none (char_of_stops (stops_cons (beq_eq_false_iff_ne.2 hd)))

/-- A given word is not accepted where the text begins with something else. -/
lemma literal_of_opening {w v cs : List Char} (hv : ∃ tail, cs = v ++ tail)
    (h : differ w v = true) (rest : List Char) : literal w (cs ++ rest) = none := by
  obtain ⟨tail, rfl⟩ := hv
  rw [List.append_assoc]
  exact literal_eq_none h _

lemma run1_append {class_ : Char → Bool} {w : List Char} (hw : ∀ c ∈ w, class_ c = true)
    (hne : w ≠ []) (hrest : Stops class_ rest) : run1 class_ (w ++ rest) = some (w, rest) := by
  rw [run1, takeWhile_append hw hrest, dropWhile_append hw hrest,
    if_neg (by rwa [List.isEmpty_iff])]

/-- A run of a class has to begin with a character of the class. -/
lemma run1_of_stops {class_ : Char → Bool} (h : Stops class_ cs) : run1 class_ cs = none := by
  cases cs with
  | nil => rfl
  | cons c cs => rw [run1, List.takeWhile_cons_of_neg (by simp [h c rfl])]; rfl

lemma run_all (cs : List Char) : run (fun _ => true) cs = some (cs, []) := by
  have htake := takeWhile_append (p := fun _ => true) (w := cs) (fun _ _ => rfl) (stops_nil _)
  have hdrop := dropWhile_append (p := fun _ => true) (w := cs) (fun _ _ => rfl) (stops_nil _)
  rw [List.append_nil] at htake hdrop
  rw [run, htake, hdrop]

/-- A single blank is passed over if no other one follows. -/
lemma spaces1_blank (h : Stops isSpace cs) : spaces1 (' ' :: cs) = some ((), cs) := by
  have hrun : run1 isSpace ([' '] ++ cs) = some ([' '], cs) :=
    run1_append (List.forall_mem_singleton.2 rfl) (List.cons_ne_nil _ _) h
  exact map_of_eq_some hrun

lemma spaces1_of_stops (h : Stops isSpace cs) : spaces1 cs = none :=
  map_of_eq_none (run1_of_stops h)

end Parser

end LinearInterchange.Text
