import LinearInterchange.Proofs.NumberText
import LinearInterchange.Proofs.StatedProblems

/-!
# Listings

A listing is a list of statements, each on a line, perhaps with a name on a first line of its own
behind a mark.  A dialect is a language of such listings: it says how a statement is written, how it
is read, and which problem the statements of a listing state.  The law of a dialect is that a
statement is read as it was written, whatever comes after its line.

From this law alone it follows that a listing is read back from its text (`Dialect.read?_text`), so
that a text states one problem at most (`Dialect.says_text_iff`).
-/

namespace LinearInterchange

open Text Text.Parser

/-! ## Numbers and words -/

namespace Text.Parser

/-- Reads an integer in decimal digits, perhaps with a sign. -/
def signed : Parser ℤ := do
  let negative ← sign
  let digits ← digits1
  return withSign negative (valueOf digits)

/-- Reads a number in decimal digits. -/
def number : Parser ℕ :=
  valueOf <$> digits1

lemma signed_append (z : ℤ) {rest : List Char} (h : Stops Char.isDigit rest) :
    signed ((toString z).toList ++ rest) = some (z, rest) := by
  rw [toList_toString_int, List.append_assoc, signed, bind_of_eq_some (sign_append _ _),
    bind_of_eq_some (digits1_append h), valueOf_toDigits, withSign_natAbs]
  rfl

lemma number_append (n : ℕ) {rest : List Char} (h : Stops Char.isDigit rest) :
    number ((toString n).toList ++ rest) = some (n, rest) := by
  rw [toList_toString_nat]
  have hread := map_of_eq_some (g := valueOf) (digits1_append (n := n) h)
  rwa [valueOf_toDigits] at hread

end Text.Parser

/-- Reads the word for a sense. -/
def Sense.read : Parser Sense :=
  (do literal "minimize".toList; return .minimize)
  <|> (do literal "maximize".toList; return .maximize)

/-- The word for a sense is read as the sense. -/
lemma Sense.read_append (s : Sense) (rest : List Char) :
    Sense.read (s.word.toList ++ rest) = some (s, rest) := by
  cases s with
  | minimize => exact orElse_of_eq_some (bind_of_eq_some (literal_append "minimize".toList rest))
  | maximize =>
    refine (orElse_of_eq_none (bind_of_eq_none (literal_eq_none (by decide) rest))).trans ?_
    exact bind_of_eq_some (literal_append "maximize".toList rest)

/-! ## Dialects -/

/-- A list of statements with a name. -/
structure Listing (σ : Type) where
  name : Option String
  statements : List σ

/-- A language of listings. -/
structure Dialect (σ : Type) where
  /-- What stands before the name of a listing. -/
  mark : String
  /-- What a statement has to be so that it can be read back. -/
  Allows : σ → Prop
  /-- The text of a statement. -/
  write : σ → String
  /-- Reads a statement. -/
  read : Parser σ
  /-- The problem that a listing states. -/
  problem : Listing σ → Problem
  read_write : ∀ s, Allows s → ∀ rest,
    read ((write s).toList ++ '\n' :: rest) = some (s, '\n' :: rest)
  read_nil : read [] = none
  mark_write : ∀ s rest, literal mark.toList ((write s).toList ++ rest) = none
  mark_nil : literal mark.toList [] = none

namespace Dialect

variable {σ : Type} (d : Dialect σ)

/-- The text of some statements, each with its line feed. -/
def lines (ss : List σ) : String :=
  String.join (ss.map fun s => d.write s ++ "\n")

/-- The line of a name, if there is one. -/
def nameLine : Option String → String
  | none => ""
  | some name => d.mark ++ name ++ "\n"

/-- The text of a listing. -/
def text (l : Listing σ) : String :=
  d.nameLine l.name ++ d.lines l.statements

/-- Reads the line of a name. -/
def readName : Parser String := do
  literal d.mark.toList
  let name ← run (· != '\n')
  char '\n'
  return String.ofList name

/-- Reads a statement with its line feed. -/
def readLine : Parser σ := do
  let s ← d.read
  char '\n'
  return s

/-- Reads a listing. -/
def readListing : Parser (Listing σ) := do
  let name ← optional? d.readName
  let statements ← many d.readLine
  return ⟨name, statements⟩

/-- The listing that a text is, as a whole. -/
def read? (text : String) : Option (Listing σ) :=
  parseWhole? d.readListing text.toList

/-- The name of the listing is a single line, and its statements can be read back. -/
structure IsListing (l : Listing σ) : Prop where
  name_line : ∀ name ∈ l.name, '\n' ∉ name.toList
  allows : ∀ s ∈ l.statements, d.Allows s

/-- A text states a problem: it is the text of a listing that does. -/
def Says (text : String) (p : Problem) : Prop :=
  ∃ l, d.IsListing l ∧ d.text l = text ∧ d.problem l = p

/-- The problem that is read from a text. -/
def readProblem? (text : String) : Option Problem :=
  (d.read? text).map d.problem

/-! ### Texts of statements -/

lemma lines_nil : d.lines [] = "" := rfl

lemma lines_cons (s : σ) (ss : List σ) : d.lines (s :: ss) = d.write s ++ "\n" ++ d.lines ss := by
  rw [lines, List.map_cons, String.join_cons, lines]

lemma lines_append (ss ts : List σ) : d.lines (ss ++ ts) = d.lines ss ++ d.lines ts := by
  rw [lines, List.map_append, String.join_append, lines, lines]

/-- The statements that are made of a list are written one to a line. -/
lemma lines_map {α : Type} (f : α → σ) (l : List α) :
    d.lines (l.map f) = String.join (l.map fun a => d.write (f a) ++ "\n") := by
  rw [lines, List.map_map]
  rfl

lemma lines_flatMap {α : Type} (f : α → List σ) (l : List α) :
    d.lines (l.flatMap f) = String.join (l.map fun a => d.lines (f a)) := by
  induction l with
  | nil => rfl
  | cons a l ih => rw [List.flatMap_cons, lines_append, ih, List.map_cons, String.join_cons]

/-! ### Reading back -/

variable {d} {ss : List σ} {l : Listing σ}

/-- The text of some statements does not begin with the mark of a name. -/
lemma mark_lines (ss : List σ) : literal d.mark.toList (d.lines ss).toList = none := by
  cases ss with
  | nil => exact d.mark_nil
  | cons s ss =>
    rw [lines_cons, String.append_assoc, String.toList_append]
    exact d.mark_write s _

/-- Statements are read back from their text. -/
lemma many_readLine (h : ∀ s ∈ ss, d.Allows s) :
    many d.readLine (d.lines ss).toList = some (ss, []) := by
  induction ss with
  | nil => exact many_of_eq_none (bind_of_eq_none d.read_nil)
  | cons s ss ih =>
    have hline : d.readLine ((d.write s).toList ++ '\n' :: (d.lines ss).toList) =
        some (s, (d.lines ss).toList) := by
      rw [readLine, bind_of_eq_some (d.read_write s (h s List.mem_cons_self) _),
        bind_of_eq_some (char_cons _ _)]
      rfl
    have htext : (d.lines (s :: ss)).toList =
        (d.write s).toList ++ '\n' :: (d.lines ss).toList := by
      rw [lines_cons, String.append_assoc, String.toList_append, String.toList_append]
      rfl
    rw [htext]
    refine many_of_eq_some hline ?_ (ih fun t ht => h t (List.mem_cons_of_mem _ ht))
    rw [List.length_append, List.length_cons]
    omega

/-- The line of a name is read up to its end. -/
lemma readName_append {name : String} (h : '\n' ∉ name.toList) (rest : List Char) :
    d.readName ((d.nameLine (some name)).toList ++ rest) = some (name, rest) := by
  have hname : ∀ c ∈ name.toList, (c != '\n') = true :=
    fun c hc => bne_iff_ne.2 fun hfeed => h (hfeed ▸ hc)
  have hstops : Stops (· != '\n') ('\n' :: rest) := stops_cons (by simp)
  have hrun : run (· != '\n') (name.toList ++ '\n' :: rest) = some (name.toList, '\n' :: rest) := by
    rw [run, takeWhile_append hname hstops, dropWhile_append hname hstops]
  have hfeed : "\n".toList ++ rest = '\n' :: rest := rfl
  rw [nameLine, String.toList_append, String.toList_append, List.append_assoc, List.append_assoc,
    hfeed, readName, bind_of_eq_some (literal_append _ _), bind_of_eq_some hrun,
    bind_of_eq_some (char_cons _ _), String.ofList_toList]
  rfl

/-- A listing is read back from its text. -/
lemma read?_text (h : d.IsListing l) : d.read? (d.text l) = some l := by
  have hstatements := many_readLine h.allows
  have hname : optional? d.readName (d.text l).toList =
      some (l.name, (d.lines l.statements).toList) := by
    rw [text, String.toList_append]
    cases hl : l.name with
    | none => exact optional?_of_eq_none (bind_of_eq_none (mark_lines _))
    | some name => exact optional?_of_eq_some (readName_append (h.name_line name hl) _)
  refine parseWhole?_eq_some ?_
  rw [readListing, bind_of_eq_some hname, bind_of_eq_some hstatements]
  rfl

/-- The text of a listing is read as what the listing states, and it states nothing else. -/
lemma says_text_iff (h : d.IsListing l) {p : Problem} (hp : d.problem l = p) :
    d.readProblem? (d.text l) = some p ∧ ∀ q, d.Says (d.text l) q ↔ q = p := by
  refine ⟨by rw [readProblem?, read?_text h, Option.map_some, hp], fun q => ⟨?_, ?_⟩⟩
  · rintro ⟨l', hl', htext, rfl⟩
    have hread := read?_text hl'
    rw [htext, read?_text h] at hread
    rw [← Option.some.inj hread, hp]
  · rintro rfl
    exact ⟨l, h, rfl, hp⟩

/-! ### Emitted listings -/

open Emit

variable {s s' : String} {u : Unit}

lemma gives_nameLine {name : Option String}
    (h : Gives (name.forM fun n => line (d.mark ++ n)) s u s') : s' = s ++ d.nameLine name := by
  rcases h.of_option_forM with ⟨rfl, rfl⟩ | ⟨n, rfl, hline⟩
  · exact String.append_empty.symm
  · exact hline.of_line

/-- Statements are emitted one to a line. -/
lemma gives_lines {α : Type} {as : List α} {f : α → String} {g : α → σ}
    (hf : ∀ a, f a = d.write (g a)) (h : Gives (as.forM fun a => line (f a)) s u s') :
    s' = s ++ d.lines (as.map g) := by
  obtain ⟨bs, hbs, rfl⟩ := Gives.of_forM (P := fun a b => g a = b) (g := fun b => d.write b ++ "\n")
    (fun a _ u s s' ha => ⟨g a, rfl, by rw [ha.of_line, hf]⟩) h
  have hmap := List.forall₂_map_left_iff (R := Eq).2 hbs
  rw [List.forall₂_eq_eq_eq] at hmap
  rw [hmap, lines]

end Dialect

end LinearInterchange
