import LinearInterchange.Proofs.FlatZincItems

/-!
# Annotations

Annotations of a FlatZinc model tell a solver how to go about it, and the reader skips them.  Their
arguments are any text with balanced brackets, but what is balanced is counted without regard to
string literals, and the items of the model are cut out before: a semicolon in a string literal ends
the item, and a percent sign begins a comment.

An item is read up to the place of an annotation by parsers that do not look any further, so the
texts with and without annotations come to that place alike (`UpTo`), and from there on it only
matters what is left when the annotations are skipped (`annotations_skip`).
-/

namespace LinearInterchange

namespace FlatZinc

open Text Text.Parser

/-! ## Texts of annotations -/

/-- The text is a word: letters, digits and underscores, of which the first one is no digit. -/
def IsIdent (n : List Char) : Prop :=
  n.head?.any isIdentStart = true ∧ n.all isIdentPart = true

instance (n : List Char) : Decidable (IsIdent n) :=
  inferInstanceAs (Decidable (_ ∧ _))

/-- The character opens a bracket. -/
def opens (c : Char) : Bool :=
  c == '(' || c == '['

/-- The character closes a bracket. -/
def closes (c : Char) : Bool :=
  c == ')' || c == ']'

/-- The brackets in the text are balanced, in string literals like elsewhere.  The two kinds of
brackets are not told apart. -/
inductive Balanced : List Char → Prop
  | nil : Balanced []
  | other {c : Char} {cs : List Char} : opens c = false → closes c = false → Balanced cs →
      Balanced (c :: cs)
  | nest {o c : Char} {cs ds : List Char} : opens o = true → closes c = true → Balanced cs →
      Balanced ds → Balanced (o :: cs ++ c :: ds)

/-- The text is an annotation: two colons, a word, and arguments in brackets that may be left out,
with any layout between them. -/
inductive IsAnnotation : List Char → Prop
  | word {w w' n : List Char} : w.all isLayout = true → w'.all isLayout = true → IsIdent n →
      IsAnnotation (w ++ "::".toList ++ w' ++ n)
  | call {w w' n w'' args : List Char} : w.all isLayout = true → w'.all isLayout = true →
      IsIdent n → w''.all isLayout = true → Balanced args →
      IsAnnotation (w ++ "::".toList ++ w' ++ n ++ w'' ++ ('(' :: args ++ [')']))

/-- An annotation that ends here does not go on with the text, neither with its name nor with
arguments. -/
structure Ends (cs : List Char) : Prop where
  word : Stops isIdentPart cs
  args : (cs.dropWhile isLayout).head? ≠ some '('

/-- A place in an item behind the name of a variable, of an array or of a parameter, behind the
arguments of a constraint, or behind the word for the goal: the text of the item up to there, and
what follows.  A name ends where no character of a word follows. -/
inductive Place : List Char → List Char → Prop
  | declared {keyword : String} {type w name after : List Char} :
      keyword ∈ ["var", "array", "int", "bool"] → Stops isIdentPart type → ':' ∉ type →
      w.all isLayout = true → IsIdent name → Stops isIdentPart after →
      Place (keyword.toList ++ (type ++ ':' :: (w ++ name))) after
  | constrained {call after : List Char} : Stops isIdentPart call → ')' ∉ call →
      Place ("constraint".toList ++ (call ++ [')'])) after
  | solve {after : List Char} : Stops isIdentPart after → Place "solve".toList after

/-- A place in an item where annotations may be: also behind those that are there. -/
inductive Gap : List Char → List Char → Prop
  | place {before after : List Char} : Place before after → Gap before after
  | annotated {before note after : List Char} : Gap before (note ++ after) →
      IsAnnotation note → Ends after → Gap (before ++ note) after

variable {cs cs' n w u v : List Char}

/-! ## Words -/

/-- A word begins like a word. -/
lemma IsIdent.exists_cons (h : IsIdent n) : ∃ c m, n = c :: m ∧ isIdentStart c = true := by
  cases n with
  | nil => exact absurd h.1 (by simp)
  | cons c m => exact ⟨c, m, rfl, by simpa using h.1⟩

/-- What is taken of a class goes on with what is taken of a wider one. -/
lemma takeWhile_from {p q : Char → Bool} (h : ∀ c, p c = true → q c = true) (cs : List Char) :
    cs.takeWhile p ++ (cs.dropWhile p).takeWhile q = cs.takeWhile q := by
  rw [← List.takeWhile_append_of_pos fun c hc => h c (List.mem_takeWhile_imp hc),
    List.takeWhile_append_dropWhile]

/-- What is left of a wider class is left of what a class leaves. -/
lemma dropWhile_from {p q : Char → Bool} (h : ∀ c, p c = true → q c = true) (cs : List Char) :
    (cs.dropWhile p).dropWhile q = cs.dropWhile q := by
  rw [← List.dropWhile_append_of_pos fun c hc => h c (List.mem_takeWhile_imp hc),
    List.takeWhile_append_dropWhile]

/-- A word is read up to its end. -/
lemma ident_append (hn : IsIdent n) (hcs : Stops isIdentPart cs) :
    ident (n ++ cs) = some (n, cs) := by
  have hpart : ∀ c, isIdentStart c = true → isIdentPart c = true :=
    fun c => isIdentPart_of_isIdentStart
  -- the letters at the beginning are read first, and then the rest of the word
  have hstart : run1 isIdentStart (n ++ cs) =
      some ((n ++ cs).takeWhile isIdentStart, (n ++ cs).dropWhile isIdentStart) := by
    obtain ⟨c, m, rfl, hc⟩ := hn.exists_cons
    rw [run1, if_neg]
    rw [List.cons_append, List.takeWhile_cons_of_pos hc]
    exact Bool.false_ne_true
  have hrest : run isIdentPart ((n ++ cs).dropWhile isIdentStart) =
      some (((n ++ cs).dropWhile isIdentStart).takeWhile isIdentPart, cs) := by
    rw [run, dropWhile_from hpart, dropWhile_append (List.all_eq_true.1 hn.2) hcs]
  unfold ident
  rw [bind_of_eq_some hstart, bind_of_eq_some hrest]
  refine congrArg (fun w => some (w, cs)) ?_
  rw [takeWhile_from hpart, takeWhile_append (List.all_eq_true.1 hn.2) hcs]

lemma isIdentPart_of_isLayout {c : Char} (h : isLayout c = true) : isIdentPart c = false := by
  simp only [isLayout, Bool.or_eq_true, beq_iff_eq, or_assoc] at h
  rcases h with rfl | rfl | rfl | rfl <;> rfl

/-- Characters of words are no layout. -/
lemma isLayout_of_isIdentPart {c : Char} (h : isIdentPart c = true) : isLayout c = false := by
  by_contra hlayout
  rw [isIdentPart_of_isLayout (Bool.eq_true_of_not_eq_false hlayout)] at h
  cases h

lemma IsIdent.stops (h : IsIdent n) (cs : List Char) : Stops isLayout (n ++ cs) := by
  obtain ⟨c, m, rfl, hc⟩ := h.exists_cons
  exact stops_cons (isLayout_of_isIdentPart (isIdentPart_of_isIdentStart hc))

/-- Layout is passed over. -/
lemma layout_append (hw : w.all isLayout = true) (hcs : Stops isLayout cs) :
    layout (w ++ cs) = some ((), cs) := by
  have hrun : run isLayout (w ++ cs) = some (w, cs) := by
    rw [run, takeWhile_append (List.all_eq_true.1 hw) hcs,
      dropWhile_append (List.all_eq_true.1 hw) hcs]
  exact map_of_eq_some hrun

/-! ## Skipping annotations -/

/-- A balanced text closes no bracket that is open before it. -/
lemma Balanced.closing (h : Balanced cs) (depth : ℕ) (rest : List Char) :
    closing (depth + 1) (cs ++ rest) = closing (depth + 1) rest := by
  have hopens : ∀ {c : Char}, opens c = true ↔ c = '(' ∨ c = '[' := by simp [opens]
  have hcloses : ∀ {c : Char}, closes c = true ↔ c = ')' ∨ c = ']' := by simp [closes]
  induction h generalizing depth rest with
  | nil => rfl
  | other hopen hclose _ ih =>
    rw [List.cons_append, closing_other (mt hopens.2 (by simp [hopen]))
      (mt hcloses.2 (by simp [hclose])), ih]
  | nest hopen hclose _ _ ih ih' =>
    rw [List.cons_append, List.cons_append, closing_open (hopens.1 hopen), List.append_assoc, ih,
      List.cons_append, closing_close (hcloses.1 hclose)]
    exact ih' depth rest

/-- Layout in front of another character begins no word. -/
lemma stops_isIdentPart_append (hw : w.all isLayout = true) (hcs : Stops isIdentPart cs) :
    Stops isIdentPart (w ++ cs) := by
  cases w with
  | nil => exact hcs
  | cons c w =>
    exact stops_cons (isIdentPart_of_isLayout (List.all_eq_true.1 hw c List.mem_cons_self))

/-- The colons and the name of an annotation are followed by its arguments. -/
lemma annotation_name {w' : List Char} (hw : w.all isLayout = true) (hw' : w'.all isLayout = true)
    (hn : IsIdent n) (hcs : Stops isIdentPart cs) :
    annotation (w ++ "::".toList ++ w' ++ n ++ cs) = skipArgs cs := by
  have hcolons : Stops isLayout ("::".toList ++ (w' ++ (n ++ cs))) :=
    stops_append (by decide) _
  simp only [List.append_assoc]
  unfold annotation
  rw [bind_of_eq_some (layout_append hw hcolons), bind_of_eq_some (literal_append _ _),
    bind_of_eq_some (layout_append hw' (hn.stops cs)), bind_of_eq_some (ident_append hn hcs)]

/-- Text without brackets in front of a balanced text leaves it balanced. -/
lemma Balanced.append_of_all (hw : (w.all fun c => !opens c && !closes c) = true)
    (hcs : Balanced cs) : Balanced (w ++ cs) := by
  induction w with
  | nil => exact hcs
  | cons c w ih =>
    rw [List.all_cons, Bool.and_eq_true, Bool.and_eq_true, Bool.not_eq_true',
      Bool.not_eq_true'] at hw
    exact .other hw.1.1 hw.1.2 (ih hw.2)

lemma Balanced.of_all (hw : (w.all fun c => !opens c && !closes c) = true) : Balanced w := by
  simpa using Balanced.append_of_all hw .nil

/-- An annotation is skipped up to its end. -/
lemma annotation_append (h : IsAnnotation w) (hcs : Ends cs) :
    annotation (w ++ cs) = some ((), cs) := by
  cases h with
  | word hw hw' hn =>
    rw [annotation_name hw hw' hn hcs.word, skipArgs_eq, if_neg hcs.args]
  | @call w w' n w'' args hw hw' hn hw'' hargs =>
    have hopen : Stops isLayout ('(' :: (args ++ [')'] ++ cs)) := stops_cons rfl
    have hdrop := dropWhile_append (List.all_eq_true.1 hw'') hopen
    have hclosing : closing 0 ('(' :: (args ++ [')'] ++ cs)) = some cs := by
      rw [closing_open (.inl rfl), List.append_assoc, hargs.closing, List.singleton_append,
        closing_close (.inl rfl)]
    rw [List.append_assoc _ w'', List.append_assoc _ _ cs, annotation_name hw hw' hn]
    · rw [List.append_assoc w'', List.cons_append, List.cons_append, skipArgs_eq, hdrop,
        List.head?_cons, if_pos rfl, hclosing]
      rfl
    · rw [List.append_assoc]
      exact stops_isIdentPart_append hw'' (stops_cons rfl)

/-- An annotation begins with its colons. -/
lemma IsAnnotation.exists_colons (h : IsAnnotation w) :
    ∃ w₁ w₂, w₁.all isLayout = true ∧ w = w₁ ++ ':' :: w₂ := by
  cases h with
  | word hw _ _ => exact ⟨_, _, hw, by simp only [List.append_assoc]; rfl⟩
  | call hw _ _ _ _ => exact ⟨_, _, hw, by simp only [List.append_assoc]; rfl⟩

/-- Another annotation does not go on with one. -/
lemma IsAnnotation.ends (h : IsAnnotation w) (cs : List Char) : Ends (w ++ cs) := by
  obtain ⟨w₁, w₂, hw₁, rfl⟩ := h.exists_colons
  rw [List.append_assoc, List.cons_append]
  constructor
  · exact stops_isIdentPart_append hw₁ (stops_cons rfl)
  · have hcolon : Stops isLayout (':' :: (w₂ ++ cs)) := stops_cons rfl
    rw [dropWhile_append (List.all_eq_true.1 hw₁) hcolon, List.head?_cons]
    decide

/-- Annotations do not go on with annotations. -/
lemma ends_flatten {as : List (List Char)} (has : ∀ a ∈ as, IsAnnotation a) (hcs : Ends cs) :
    Ends (as.flatten ++ cs) := by
  cases as with
  | nil => exact hcs
  | cons a as =>
    rw [List.flatten_cons, List.append_assoc]
    exact (has a List.mem_cons_self).ends _

/-- Annotations are skipped. -/
lemma annotations_skip {as : List (List Char)} (has : ∀ a ∈ as, IsAnnotation a) (hcs : Ends cs) :
    annotations (as.flatten ++ cs) = annotations cs := by
  induction as with
  | nil => rfl
  | cons a as ih =>
    obtain ⟨ha, has⟩ := List.forall_mem_cons.1 has
    rw [← ih has, List.flatten_cons, List.append_assoc]
    have hlt : (as.flatten ++ cs).length < (a ++ (as.flatten ++ cs)).length := by
      obtain ⟨w₁, w₂, -, rfl⟩ := ha.exists_colons
      simp only [List.length_append, List.length_cons]
      omega
    have hfirst := annotation_append ha (ends_flatten has hcs)
    have hrest : many annotation (as.flatten ++ cs) =
      some (many.go annotation (as.flatten ++ cs)) := rfl
    unfold annotations
    rw [bind_of_eq_some (many_of_eq_some hfirst hlt hrest), bind_of_eq_some hrest]

/-! ## Texts that are the same behind layout -/

/-- The texts are the same behind the layout in front of them. -/
def Behind (cs cs' : List Char) : Prop :=
  cs.dropWhile isLayout = cs'.dropWhile isLayout

/-- What begins with layout reads such texts alike. -/
lemma layout_bind_likens {α : Type} (f : Unit → Parser α) :
    Likens Behind Eq Eq (layout >>= f) (layout >>= f) := by
  intro cs cs' h
  have hlayout : ∀ ds, layout ds = some ((), ds.dropWhile isLayout) := fun _ => rfl
  rw [bind_of_eq_some (hlayout cs), bind_of_eq_some (hlayout cs'), h]
  cases f () (cs'.dropWhile isLayout) with
  | none => exact .none
  | some r => exact .some ⟨rfl, rfl⟩

/-- Annotations of such texts are skipped alike. -/
lemma annotations_behind : Likens Behind Behind Eq annotations annotations := by
  refine annotations_likens ?_ fun cs cs' h => ?_
  · exact (layout_bind_likens _).imp (fun _ _ h => h) (fun _ _ h => h) fun _ _ h => congrArg _ h
  · rw [annotated, annotated, h]

/-! ## Texts that are the same up to a place -/

/-- The texts are the same up to the first character `sep`, and behind it one goes on with `u` and
the other one with `v`. -/
def UpTo (sep : Char) (u v cs cs' : List Char) : Prop :=
  ∃ w, sep ∉ w ∧ cs = w ++ sep :: u ∧ cs' = w ++ sep :: v

/-- One text is `u` and the other one is `v`. -/
def Are (u v cs cs' : List Char) : Prop :=
  cs = u ∧ cs' = v

/-- One text is `u` behind layout, and the other one is `v`. -/
def Beside (u v cs cs' : List Char) : Prop :=
  Behind cs u ∧ Behind cs' v

/-- Up to the place, the texts are the same. -/
lemma agree_upTo (sep : Char) (u v : List Char) : Agree (· != sep) (UpTo sep u v) := by
  rintro cs cs' ⟨w, hw, rfl, rfl⟩
  cases w with
  | nil => exact .inl ⟨stops_cons (by simp), stops_cons (by simp)⟩
  | cons c w =>
    obtain ⟨hc, hw⟩ := not_or.1 (mt List.mem_cons.2 hw)
    exact .inr ⟨c, _, _, by simpa using Ne.symm hc, rfl, rfl, w, hw, rfl, rfl⟩

/-- Behind the character, the texts differ. -/
lemma char_upTo (sep : Char) (u v : List Char) :
    Likens (UpTo sep u v) (Are u v) Eq (char sep) (char sep) := by
  rintro cs cs' ⟨w, hw, rfl, rfl⟩
  cases w with
  | nil =>
    rw [List.nil_append, List.nil_append, char_cons, char_cons]
    exact .some ⟨rfl, rfl, rfl⟩
  | cons c w =>
    have hc : c ≠ sep := fun h => hw (h ▸ List.mem_cons_self)
    rw [List.cons_append, List.cons_append, char_of_stops (stops_cons (by simpa using hc)),
      char_of_stops (stops_cons (by simpa using hc))]
    exact .none

/-- Layout in front of the place is passed over. -/
lemma layout_are (hw : w.all isLayout = true) (hu : Stops isLayout u) (hv : Stops isLayout v) :
    Likens (Are (w ++ u) (w ++ v)) (Are u v) Eq layout layout := by
  rintro cs cs' ⟨rfl, rfl⟩
  rw [layout_append hw hu, layout_append hw hv]
  exact .some ⟨rfl, rfl, rfl⟩

/-- A word in front of the place is read. -/
lemma ident_are (hn : IsIdent n) (hu : Stops isIdentPart u) (hv : Stops isIdentPart v) :
    Likens (Are (n ++ u) (n ++ v)) (Are u v) Eq ident ident := by
  rintro cs cs' ⟨rfl, rfl⟩
  rw [ident_append hn hu, ident_append hn hv]
  exact .some ⟨rfl, rfl, rfl⟩

/-- A given word in front of the place is read. -/
lemma literal_are (w u v : List Char) :
    Likens (Are (w ++ u) (w ++ v)) (Are u v) Eq (literal w) (literal w) := by
  rintro cs cs' ⟨rfl, rfl⟩
  rw [literal_append, literal_append]
  exact .some ⟨rfl, rfl, rfl⟩

/-- Layout behind the place is passed over. -/
lemma layout_beside (u v : List Char) : Likens (Are u v) (Beside u v) Eq layout layout := by
  have hdrop : ∀ ds : List Char, Behind (ds.dropWhile isLayout) ds := fun ds =>
    List.dropWhile_idempotent isLayout ds
  rintro cs cs' ⟨rfl, rfl⟩
  exact .some ⟨rfl, hdrop cs, hdrop cs'⟩

/-- The place itself is beside the layout behind it. -/
lemma Are.beside (h : Are u v cs cs') : Beside u v cs cs' :=
  ⟨congrArg _ h.1, congrArg _ h.2⟩

/-- Words, lists and ranges in front of a colon are the same. -/
lemma inner_upTo (u v : List Char) : Agree isInner (UpTo ':' u v) :=
  (agree_upTo ':' u v).mono (bne_of_class rfl)

/-- Behind the colon in front of a name, the name comes next. -/
lemma colon_upTo {name : List Char} (hw : w.all isLayout = true) (hname : IsIdent name) :
    Likens (UpTo ':' (w ++ (name ++ u)) (w ++ (name ++ v))) (Are (name ++ u) (name ++ v)) Eq
      (padded (char ':')) (padded (char ':')) := by
  refine ((agree_upTo ':' _ _).layout (bne_of_class rfl)).andThen fun _ => ?_
  refine (char_upTo ':' _ _).andThen fun _ => ?_
  exact (layout_are hw (hname.stops u) (hname.stops v)).andThen fun _ => .pure rfl

/-! ## Items up to a place -/

/-- A goal behind its word and its annotations. -/
def goal : Parser Item := do
  layout
  (do
    literal "satisfy".toList
    return .solve .satisfy)
  <|> (do
    let direction ← goalDirection
    layout1
    return .solve (.optimize direction (← expr)))

section Items

variable {S : List Char → List Char → Prop} {name : List Char}
  (hnotes : Likens (Beside u v) S Eq annotations annotations)

include hnotes

/-- The annotations of a constraint are its end. -/
lemma constrItem_upTo : Likens (UpTo ')' u v) S Eq constrItem constrItem := by
  have hupTo := agree_upTo ')' u v
  have hinner : Agree isInner (UpTo ')' u v) := hupTo.mono (bne_of_class rfl)
  have hl := hupTo.layout (bne_of_class rfl)
  have htakes : Takes 0 (padded expr) := .padded (takes_expr.mono (Nat.zero_le 1))
  have hargs : Likens (UpTo ')' u v) (UpTo ')' u v) Eq (sepBy (char ',') (padded expr))
      (sepBy (char ',') (padded expr)) :=
    .sepBy (hupTo.char (by decide)) ((expr_likens hinner hl).padded hl) (.char ',') (.char ',')
      htakes htakes
  refine (hupTo.literal (by decide)).andThen fun _ => (hupTo.layout1 (bne_of_class rfl)).andThen fun _ => ?_
  refine (ident_likens hinner).andThen fun name => ?_
  refine ((hupTo.char (by decide)).padded hl).andThen fun _ => hargs.andThen fun args => ?_
  refine (char_upTo ')' u v).andThen fun _ => ?_
  refine (hnotes.imp (fun _ _ => Are.beside) (fun _ _ h => h) fun _ _ h => h).andThen ?_
  exact fun _ => .pure rfl

/-- The annotations of a goal are in front of it. -/
lemma solveItem_are (hgoal : Likens S S Eq goal goal) :
    Likens (Are ("solve".toList ++ u) ("solve".toList ++ v)) S Eq solveItem solveItem := by
  refine (literal_are _ u v).andThen fun _ => ?_
  refine (hnotes.imp (fun _ _ => Are.beside) (fun _ _ h => h) fun _ _ h => h).andThen ?_
  exact fun _ => hgoal

variable (hassigned : Likens S S Eq assigned assigned) (hw : w.all isLayout = true)
  (hname : IsIdent name) (hu : Stops isIdentPart u) (hv : Stops isIdentPart v)

include hassigned hw hname hu hv

/-- The annotations of a variable are behind its name. -/
lemma varItem_upTo :
    Likens (UpTo ':' (w ++ (name ++ u)) (w ++ (name ++ v))) S Eq varItem varItem := by
  have hupTo := agree_upTo ':' (w ++ (name ++ u)) (w ++ (name ++ v))
  have hl := hupTo.layout (bne_of_class rfl)
  have hrange := (range_likens (inner_upTo _ _) hl).padded hl
  have htype : Likens (UpTo ':' (w ++ (name ++ u)) (w ++ (name ++ v)))
      (UpTo ':' (w ++ (name ++ u)) (w ++ (name ++ v))) Eq varType varType := by
    refine .orElse ?_ (.orElse ?_ (.orElse ?_ ?_))
    · exact (hupTo.literal (by decide)).andThen fun _ => hl.andThen fun _ => .pure rfl
    · exact (hupTo.literal (by decide)).andThen fun _ => hl.andThen fun _ => .pure rfl
    · exact hrange.andThen fun bounds => .pure rfl
    · exact hupTo.run1.andThen fun text => .pure rfl
  refine (hupTo.literal (by decide)).andThen fun _ => (hupTo.layout1 (bne_of_class rfl)).andThen ?_
  refine fun _ => htype.andThen fun type => (colon_upTo hw hname).andThen fun _ => ?_
  refine (ident_are hname hu hv).andThen fun name => ?_
  refine (hnotes.imp (fun _ _ => Are.beside) (fun _ _ h => h) fun _ _ h => h).andThen ?_
  exact fun _ => hassigned.optional?.andThen fun value => .pure rfl

/-- The annotations of an array are behind its name. -/
lemma arrayItem_upTo :
    Likens (UpTo ':' (w ++ (name ++ u)) (w ++ (name ++ v))) S Eq arrayItem arrayItem := by
  have hupTo := agree_upTo ':' (w ++ (name ++ u)) (w ++ (name ++ v))
  have hl := hupTo.layout (bne_of_class rfl)
  have hl1 := hupTo.layout1 (bne_of_class rfl)
  have hvar : Likens (UpTo ':' (w ++ (name ++ u)) (w ++ (name ++ v)))
      (UpTo ':' (w ++ (name ++ u)) (w ++ (name ++ v))) Eq (do literal "var".toList; layout1)
      (do literal "var".toList; layout1) :=
    (hupTo.literal (by decide)).andThen fun _ => hl1
  refine (hupTo.literal (by decide)).andThen fun _ => ?_
  refine ((hupTo.char (by decide)).padded hl).andThen fun _ => ?_
  refine (range_likens (inner_upTo _ _) hl).andThen fun _ => ?_
  refine ((hupTo.char (by decide)).padded hl).andThen fun _ => ?_
  refine (hupTo.literal (by decide)).andThen fun _ => hl1.andThen fun _ => ?_
  refine hvar.optional?.andThen fun ofVars => hupTo.run1.andThen fun _ => ?_
  refine (char_upTo ':' _ _).andThen fun _ => ?_
  refine .andThen (S := Beside u v) ?_ fun name => ?_
  · refine (layout_are hw (hname.stops u) (hname.stops v)).andThen fun _ => ?_
    refine (ident_are hname hu hv).andThen fun name => ?_
    exact (layout_beside u v).andThen fun _ => .pure rfl
  · exact hnotes.andThen fun _ => hassigned.andThen fun value => .pure rfl

/-- The annotations of a parameter are behind its name. -/
lemma paramItem_upTo :
    Likens (UpTo ':' (w ++ (name ++ u)) (w ++ (name ++ v))) S Eq paramItem paramItem := by
  have hupTo := agree_upTo ':' (w ++ (name ++ u)) (w ++ (name ++ v))
  refine .andThen (.orElse (hupTo.literal (by decide)) (hupTo.literal (by decide))) fun _ => ?_
  refine (colon_upTo hw hname).andThen fun _ => (ident_are hname hu hv).andThen fun name => ?_
  refine (hnotes.imp (fun _ _ => Are.beside) (fun _ _ h => h) fun _ _ h => h).andThen ?_
  exact fun _ => hassigned.andThen fun value => .pure rfl

end Items

/-! ## Texts that go on with something else -/

/-- The text has this character behind the layout in front of it. -/
def Faces (c : Char) (cs : List Char) : Prop :=
  ∃ ds, cs.dropWhile isLayout = c :: ds

/-- A text with which an annotation goes on has a character of a word in front, or a bracket behind
layout. -/
lemma exists_faces (h : ¬Ends u) :
    ∃ c, Faces c u ∧ c ≠ ':' ∧ c ≠ '=' ∧ (Stops isIdentPart u → c = '(') := by
  by_cases hu : Stops isIdentPart u
  · have hhead : (u.dropWhile isLayout).head? = some '(' := by
      by_contra hne
      exact h ⟨hu, hne⟩
    obtain ⟨ds, hds⟩ := List.head?_eq_some_iff.1 hhead
    exact ⟨'(', ⟨ds, hds⟩, by decide, by decide, fun _ => rfl⟩
  · cases u with
    | nil => exact absurd (stops_nil _) hu
    | cons c ds =>
      have hc : isIdentPart c = true := by
        by_contra hc
        exact hu (stops_cons (Bool.eq_false_iff.2 hc))
      have hlayout : ¬isLayout c = true := fun hl => by
        rw [isIdentPart_of_isLayout hl] at hc
        cases hc
      refine ⟨c, ⟨ds, List.dropWhile_cons_of_neg hlayout⟩, ?_, ?_, fun hstops => absurd hstops hu⟩
      · rintro rfl
        cases hc
      · rintro rfl
        cases hc

/-- Both texts have this character behind the layout in front of them. -/
def BothFace (c : Char) (cs cs' : List Char) : Prop :=
  Faces c cs ∧ Faces c cs'

section Faces

variable {α : Type} {c : Char} (hcs : Faces c cs)

include hcs

/-- Behind layout, the character comes next. -/
lemma layout_bind_of_faces {f : Unit → Parser α} (hf : ∀ ds, f () (c :: ds) = none) :
    (layout >>= f) cs = none := by
  obtain ⟨ds, hds⟩ := hcs
  have hlayout : layout cs = some ((), c :: ds) := congrArg (fun ds => some ((), ds)) hds
  rw [bind_of_eq_some hlayout, hf]

/-- Where no colon comes, there are no annotations. -/
lemma annotations_of_faces (hc : c ≠ ':') : annotations cs = some ((), cs) := by
  have hcolons : ∀ ds, literal "::".toList (c :: ds) = none := fun ds => by
    have hstops : Stops (· == ':') (c :: ds) := stops_cons (by simpa using hc)
    exact bind_of_eq_none (char_of_stops hstops)
  have hnote : annotation cs = none :=
    layout_bind_of_faces hcs fun ds => bind_of_eq_none (hcolons ds)
  have hannotated : annotated cs = false := by
    obtain ⟨ds, hds⟩ := hcs
    rw [annotated, ← isSome_literal, hds, hcolons]
    rfl
  unfold annotations
  rw [bind_of_eq_some (many_of_eq_none hnote), hannotated]
  rfl

lemma assigned_of_faces (hc : c ≠ '=') : assigned cs = none :=
  bind_of_eq_none <| layout_bind_of_faces hcs fun _ =>
    bind_of_eq_none (char_of_stops (stops_cons (by simpa using hc)))

/-- Where a bracket comes, there is no goal. -/
lemma goal_of_faces (hc : c = '(') : goal cs = none := by
  subst hc
  refine layout_bind_of_faces hcs fun ds => ?_
  have hword : ∀ w : List Char, differ w ['('] = true → literal w ('(' :: ds) = none :=
    fun w hw => literal_eq_none hw ds
  rw [orElse_of_eq_none (bind_of_eq_none (hword _ (by decide)))]
  refine bind_of_eq_none ?_
  rw [goalDirection, orElse_of_eq_none (bind_of_eq_none (hword _ (by decide)))]
  exact bind_of_eq_none (hword _ (by decide))

end Faces

/-! ## Places in items -/

lemma keywordOf_append (hn : IsIdent n) (hcs : Stops isIdentPart cs) : keywordOf (n ++ cs) = n := by
  rw [keywordOf, ident_append hn hcs]
  rfl

/-- A text that goes on with another character still does not begin with a character of a word. -/
lemma stops_append_cons {sep : Char} (hw : Stops isIdentPart w) (hsep : isIdentPart sep = false)
    (cs : List Char) : Stops isIdentPart (w ++ sep :: cs) := by
  cases w with
  | nil => exact stops_cons hsep
  | cons c w => exact stops_cons (hw c rfl)

/-- Every keyword of a declaration has one of three parsers. -/
lemma exists_parserOf_declaration {keyword : String}
    (h : keyword ∈ ["var", "array", "int", "bool"]) :
    ∃ p, parserOf? keyword.toList = some p ∧ (p = varItem ∨ p = arrayItem ∨ p = paramItem) := by
  simp only [List.mem_cons, List.not_mem_nil, or_false] at h
  rcases h with rfl | rfl | rfl | rfl
  · exact ⟨_, rfl, .inl rfl⟩
  · exact ⟨_, rfl, .inr (.inl rfl)⟩
  · exact ⟨_, rfl, .inr (.inr rfl)⟩
  · exact ⟨_, rfl, .inr (.inr rfl)⟩

namespace Place

variable {before : List Char} {S : List Char → List Char → Prop}

/-- Up to the place, both texts are read by the parser for the same keyword, and behind it they stay
related if annotations and what follows them leave them so. -/
lemma likens (h : Place before u) (hv : Stops isIdentPart u → Stops isIdentPart v)
    (hnotes : Likens (Beside u v) S Eq annotations annotations)
    (hassigned : Likens S S Eq assigned assigned)
    (hgoal : before = "solve".toList → Likens S S Eq goal goal) :
    ∃ keyword p, parserOf? keyword = some p ∧
      keywordOf (before ++ u) = keyword ∧ keywordOf (before ++ v) = keyword ∧
      Option.Rel (fun x y => x.1 = y.1 ∧ S x.2 y.2) (p (before ++ u)) (p (before ++ v)) := by
  cases h with
  | @declared keyword type w name _ hkeyword htype hcolon hw hname hu =>
    have htext : ∀ t, keyword.toList ++ (type ++ ':' :: (w ++ name)) ++ t =
        keyword.toList ++ (type ++ ':' :: (w ++ (name ++ t))) := fun t => by
      simp only [List.append_assoc, List.cons_append]
    have hwords : ∀ k ∈ ["var", "array", "int", "bool"], IsIdent k.toList ∧ ':' ∉ k.toList := by
      decide
    have hword := hwords keyword hkeyword
    have hkeyword' : ∀ t, keywordOf (keyword.toList ++ (type ++ ':' :: (w ++ name)) ++ t) =
        keyword.toList := fun t => by
      rw [htext]
      exact keywordOf_append hword.1 (stops_append_cons htype rfl _)
    -- no colon comes before that of the declaration, so all parsers stop at the same one
    have hupTo : UpTo ':' (w ++ (name ++ u)) (w ++ (name ++ v))
        (keyword.toList ++ (type ++ ':' :: (w ++ name)) ++ u)
        (keyword.toList ++ (type ++ ':' :: (w ++ name)) ++ v) := by
      refine ⟨keyword.toList ++ type, ?_, ?_, ?_⟩
      · rw [List.mem_append]
        exact not_or.2 ⟨hword.2, hcolon⟩
      · rw [htext, List.append_assoc]
      · rw [htext, List.append_assoc]
    have hvar := varItem_upTo hnotes hassigned hw hname hu (hv hu) hupTo
    have harray := arrayItem_upTo hnotes hassigned hw hname hu (hv hu) hupTo
    have hparam := paramItem_upTo hnotes hassigned hw hname hu (hv hu) hupTo
    obtain ⟨p, hp, hcases⟩ := exists_parserOf_declaration hkeyword
    refine ⟨keyword.toList, p, hp, hkeyword' u, hkeyword' v, ?_⟩
    rcases hcases with rfl | rfl | rfl
    · exact hvar
    · exact harray
    · exact hparam
  | @constrained call _ hcall hclose =>
    have hkeyword : ∀ t, keywordOf ("constraint".toList ++ (call ++ [')']) ++ t) =
        "constraint".toList := fun t => by
      rw [List.append_assoc, List.append_assoc]
      exact keywordOf_append (by decide) (stops_append_cons hcall rfl _)
    refine ⟨"constraint".toList, constrItem, rfl, hkeyword u, hkeyword v, ?_⟩
    refine constrItem_upTo hnotes ⟨"constraint".toList ++ call, ?_, ?_, ?_⟩
    · rw [List.mem_append]
      exact not_or.2 ⟨by decide, hclose⟩
    · simp only [List.append_assoc, List.singleton_append]
    · simp only [List.append_assoc, List.singleton_append]
  | solve hu =>
    have hkeyword : ∀ t, Stops isIdentPart t → keywordOf ("solve".toList ++ t) = "solve".toList :=
      fun t => keywordOf_append (by decide)
    refine ⟨"solve".toList, solveItem, rfl, hkeyword u hu, hkeyword v (hv hu), ?_⟩
    exact solveItem_are hnotes (hgoal rfl) ⟨rfl, rfl⟩

/-- The word for the goal ends where it is. -/
lemma stops_of_solve (h : Place "solve".toList u) : Stops isIdentPart u := by
  generalize hbefore : "solve".toList = before at h
  cases h with
  | declared _ _ _ _ _ hu => exact hu
  | constrained hcall _ => exact absurd (congrArg List.head? hbefore) (by simp)
  | solve hu => exact hu

/-- Items are read alike if behind the place the same is left when annotations are skipped. -/
lemma read_eq (h : Place before u) (hv : Stops isIdentPart u → Stops isIdentPart v)
    (hsame : annotations u = annotations v) :
    Item.read (before ++ u) = Item.read (before ++ v) := by
  -- annotations are skipped up to the same text on both sides
  have hbeside : Likens (Beside u v) Behind Eq annotations annotations := by
    rintro cs cs' ⟨hcs, hcs'⟩
    have hleft := annotations_behind hcs
    have hright := annotations_behind hcs'.symm
    rw [← hsame] at hright
    generalize annotations cs = x at hleft ⊢
    generalize annotations cs' = y at hright ⊢
    generalize annotations u = z at hleft hright
    cases hleft with
    | none => cases hright; exact .none
    | some hxz =>
      cases hright with
      | some hzy => exact .some ⟨hxz.1.trans hzy.1, hxz.2.trans hzy.2⟩
  have hassigned : Likens Behind Behind Eq assigned assigned :=
    ((layout_bind_likens _).andThen fun _ => .refl expr).imp (fun _ _ h => h) (fun _ _ h => h)
      fun _ _ h => congrArg _ h
  have hgoal : Likens Behind Behind Eq goal goal :=
    (layout_bind_likens _).imp (fun _ _ h => h) (fun _ _ h => h) fun _ _ h => congrArg _ h
  obtain ⟨keyword, p, hp, hu, hv, hrel⟩ := h.likens hv hbeside hassigned fun _ => hgoal
  have hparser : Likens (Are (before ++ u) (before ++ v)) Behind Eq p p := by
    rintro cs cs' ⟨rfl, rfl⟩
    exact hrel
  have hend : Likens (Are (before ++ u) (before ++ v)) Eq Eq (toEnd p) (toEnd p) :=
    hparser.andThen fun item => layout_bind_likens _
  have hwhole := hend.parseWhole? (fun _ _ h => by rw [h]) ⟨rfl, rfl⟩
  rw [read_of_announced (hu ▸ hp), read_of_announced (hv ▸ hp), hu, hv]
  generalize parseWhole? (toEnd p) (before ++ u) = x at hwhole ⊢
  generalize parseWhole? (toEnd p) (before ++ v) = y at hwhole ⊢
  cases hwhole with
  | none => rfl
  | some heq => rw [heq]

/-- An item is not read if what follows goes on neither with annotations nor with the item. -/
lemma read_ne_ok (h : Place before u) (hends : ¬Ends u) (item : Item) :
    Item.read (before ++ u) ≠ .ok item := by
  obtain ⟨c, hfaces, hcolon, hequals, hparen⟩ := exists_faces hends
  have hnotes : Likens (Beside u u) (BothFace c) Eq annotations annotations := by
    rintro cs cs' ⟨hcs, hcs'⟩
    have hfaces₁ : Faces c cs := hfaces.imp fun ds hds => hcs.trans hds
    have hfaces₂ : Faces c cs' := hfaces.imp fun ds hds => hcs'.trans hds
    rw [annotations_of_faces hfaces₁ hcolon, annotations_of_faces hfaces₂ hcolon]
    exact .some ⟨rfl, hfaces₁, hfaces₂⟩
  have hassigned : Likens (BothFace c) (BothFace c) Eq assigned assigned := by
    rintro cs cs' ⟨hcs, hcs'⟩
    rw [assigned_of_faces hcs hequals, assigned_of_faces hcs' hequals]
    exact .none
  have hgoal : before = "solve".toList → Likens (BothFace c) (BothFace c) Eq goal goal := by
    rintro rfl cs cs' ⟨hcs, hcs'⟩
    have hc : c = '(' := hparen h.stops_of_solve
    rw [goal_of_faces hcs hc, goal_of_faces hcs' hc]
    exact .none
  obtain ⟨keyword, p, hp, hu, -, hrel⟩ := h.likens id hnotes hassigned hgoal
  -- whatever is read behind the place leaves that character, so the end is never reached
  have hparser : Likens (Are (before ++ u) (before ++ u)) (BothFace c) Eq p p := by
    rintro cs cs' ⟨rfl, rfl⟩
    exact hrel
  have hlayout : Likens (BothFace c) (fun cs _ => cs ≠ []) Eq layout layout := by
    rintro cs cs' ⟨⟨ds, hds⟩, -⟩
    exact .some ⟨rfl, fun hnil => List.cons_ne_nil _ _ (hds.symm.trans hnil)⟩
  have hend : Likens (Are (before ++ u) (before ++ u)) (fun cs _ => cs ≠ []) Eq (toEnd p)
      (toEnd p) :=
    hparser.andThen fun item => hlayout.andThen fun _ => .pure rfl
  have hwhole : parseWhole? (toEnd p) (before ++ u) = none :=
    hend.parseWhole?_eq_none (fun _ _ h => h) ⟨rfl, rfl⟩
  rw [read_of_announced (hu ▸ hp), hwhole]
  nofun

end Place

/-! ## Insertions into items -/

namespace Gap

variable {before after after' : List Char}

/-- In front of the annotations that are there, there is a place. -/
lemma exists_place (h : Gap before after) :
    ∃ head es, Place head (es.flatten ++ after) ∧ before = head ++ es.flatten ∧
      (∀ e ∈ es, IsAnnotation e) ∧ (es = [] ∨ Ends after) := by
  induction h with
  | @place before after h =>
    exact ⟨before, [], h, (List.append_nil _).symm, List.forall_mem_nil _, .inl rfl⟩
  | @annotated before note after _ hnote hends ih =>
    obtain ⟨head, es, hplace, rfl, hes, -⟩ := ih
    refine ⟨head, es ++ [note], ?_, ?_, ?_, .inr hends⟩
    · simpa using hplace
    · simp
    · exact List.forall_mem_append.2 ⟨hes, List.forall_mem_singleton.2 hnote⟩

/-- Annotations do not change how an item is read. -/
lemma read (h : Gap before after) {as : List (List Char)} (has : ∀ a ∈ as, IsAnnotation a)
    {item : Item} (hitem : Item.read (before ++ after) = .ok item) :
    Item.read (before ++ as.flatten ++ after) = .ok item := by
  obtain ⟨head, es, hplace, rfl, hes, hends⟩ := h.exists_place
  have hall : ∀ e ∈ es ++ as, IsAnnotation e := List.forall_mem_append.2 ⟨hes, has⟩
  rw [List.append_assoc] at hitem
  by_cases hafter : Ends after
  · have hsame : annotations (es.flatten ++ after) = annotations ((es ++ as).flatten ++ after) := by
      rw [annotations_skip hes hafter, annotations_skip hall hafter]
    have hread := hplace.read_eq (fun _ => (ends_flatten hall hafter).word) hsame
    rw [hitem, List.flatten_append] at hread
    simpa only [List.append_assoc] using hread.symm
  · -- nothing was accepted here
    obtain rfl := hends.resolve_right hafter
    exact absurd hitem (hplace.read_ne_ok hafter item)

end Gap

/-! ### Texts around insertions -/

/-- A text that does not begin with a character of a class does not do so further in front either.
-/
lemma stops_of_shorter {p : Char → Bool} (h : Stops p cs) (hpre : cs' <+: cs) : Stops p cs' := by
  intro c hc
  obtain ⟨ds, rfl⟩ := hpre
  cases cs' with
  | nil => cases hc
  | cons d cs' => exact h c hc

/-- An annotation that ends in front of a text ends in front of its beginning. -/
lemma Ends.of_shorter (h : Ends cs) (hpre : cs' <+: cs) : Ends cs' := by
  refine ⟨stops_of_shorter h.word hpre, fun hargs => h.args ?_⟩
  obtain ⟨ds, rfl⟩ := hpre
  rw [List.dropWhile_append]
  split
  next hnil =>
    rw [List.isEmpty_iff.1 hnil] at hargs
    cases hargs
  next =>
    rw [List.head?_append, hargs]
    rfl

/-- What follows a place may be cut short. -/
lemma Place.of_shorter {before after after' : List Char} (h : Place before after)
    (hpre : after' <+: after) : Place before after' := by
  cases h with
  | declared hkeyword htype hcolon hw hname hafter =>
    exact .declared hkeyword htype hcolon hw hname (stops_of_shorter hafter hpre)
  | constrained hcall hclose => exact .constrained hcall hclose
  | solve hafter => exact .solve (stops_of_shorter hafter hpre)

/-- What follows a gap may be cut short. -/
lemma Gap.of_shorter {before after after' : List Char} (h : Gap before after)
    (hpre : after' <+: after) : Gap before after' := by
  induction h generalizing after' with
  | place h => exact .place (h.of_shorter hpre)
  | annotated _ hnote hends ih =>
    refine .annotated (ih ?_) hnote (hends.of_shorter hpre)
    exact (List.prefix_append_right_inj _).2 hpre

/-- The text does not end in white space. -/
def EndsSolid (cs : List Char) : Prop :=
  ∃ ds c, cs = ds ++ [c] ∧ isBlank c = false

lemma EndsSolid.append (h : EndsSolid cs') (cs : List Char) : EndsSolid (cs ++ cs') := by
  obtain ⟨ds, c, rfl, hc⟩ := h
  exact ⟨cs ++ ds, c, (List.append_assoc ..).symm, hc⟩

/-- A word does not end in white space. -/
lemma IsIdent.endsSolid (h : IsIdent n) : EndsSolid n := by
  have hne : n ≠ [] := by
    obtain ⟨c, m, rfl, -⟩ := h.exists_cons
    exact List.cons_ne_nil c m
  have hpart := List.all_eq_true.1 h.2 _ (List.getLast_mem hne)
  exact ⟨_, _, (List.dropLast_append_getLast hne).symm, isBlank_of_isIdentPart hpart⟩

/-- An annotation does not end in white space. -/
lemma IsAnnotation.endsSolid (h : IsAnnotation w) : EndsSolid w := by
  cases h with
  | word _ _ hn => exact hn.endsSolid.append _
  | @call _ _ _ _ args _ _ _ _ _ => exact .append ⟨'(' :: args, ')', rfl, by decide⟩ _

/-- A gap does not follow white space. -/
lemma Gap.endsSolid {before after : List Char} (h : Gap before after) : EndsSolid before := by
  induction h with
  | place h =>
    cases h with
    | @declared _ type w name _ _ _ _ _ hname _ =>
      have hcolon : EndsSolid (':' :: (w ++ name)) := (hname.endsSolid.append w).append [':']
      exact (hcolon.append type).append _
    | @constrained call _ _ _ => exact .append (.append ⟨[], ')', rfl, by decide⟩ call) _
    | solve _ => exact ⟨"solv".toList, 'e', rfl, by decide⟩
  | annotated _ hnote _ _ => exact hnote.endsSolid.append _

/-- Annotations do not end in white space. -/
lemma EndsSolid.append_flatten (h : EndsSolid cs) {as : List (List Char)}
    (has : ∀ a ∈ as, IsAnnotation a) : EndsSolid (cs ++ as.flatten) := by
  induction as generalizing cs with
  | nil => simpa using h
  | cons a as ih =>
    obtain ⟨ha, has⟩ := List.forall_mem_cons.1 has
    rw [List.flatten_cons, ← List.append_assoc]
    exact ih (ha.endsSolid.append cs) has

lemma EndsSolid.append_ne_nil (h : EndsSolid cs) (cs' : List Char) : cs ++ cs' ≠ [] := by
  obtain ⟨ds, c, rfl, -⟩ := h
  simp

/-- White space in front of a text is left out there. -/
lemma trimLeft_append (h : EndsSolid (trimLeft cs)) (cs' : List Char) :
    trimLeft (cs ++ cs') = trimLeft cs ++ cs' := by
  have hne := h.append_ne_nil []
  rw [List.append_nil] at hne
  rw [trimLeft, List.dropWhile_append, ← trimLeft, if_neg (by simpa using hne)]

/-- Where the first part of a text ends without white space, the second part is trimmed at its end.
-/
lemma trim_append (h : EndsSolid (trimLeft cs)) (cs' : List Char) :
    trim (cs ++ cs') = trimLeft cs ++ trimRight cs' := by
  rw [trim, trimLeft_append h]
  obtain ⟨ds, c, hds, hc⟩ := h
  rw [hds, trimRight, trimRight, List.reverse_append, List.reverse_append,
    List.reverse_singleton, List.singleton_append, List.dropWhile_append,
    List.dropWhile_cons_of_neg (by simp [hc])]
  split
  next hnil =>
    rw [List.isEmpty_iff.1 hnil]
    simp
  next => simp

/-! ## Insertions into models -/

/-- The second text is the first one with annotations at a place for them, which is in no
comment.  The annotations may have comments themselves, and a semicolon in a comment ends nothing.
-/
def Annotated (text text' : List Char) : Prop :=
  ∃ before inserted after, text = before ++ after ∧ text' = before ++ inserted ++ after ∧
    commented false before = false ∧ commented false inserted = false ∧
    Gap (trimLeft (itemBefore (bare false before))) (bare false after) ∧
    ';' ∉ bare false inserted ∧
    ∃ as : List (List Char), (∀ a ∈ as, IsAnnotation a) ∧ bare false inserted = as.flatten

/-- Annotations in a model that is accepted do not change what it comes to. -/
lemma outcomeOf_annotated {settings : Settings} {text text' : List Char} {inst : Instance}
    (h : Annotated text text') (haccepted : outcomeOf settings (bare false text) = .ok inst) :
    outcomeOf settings (bare false text') = .ok inst := by
  obtain ⟨before, inserted, after, rfl, rfl, hbefore, hinserted, hgap, hitem, as, has, hflat⟩ := h
  rw [bare_append, hbefore] at haccepted
  rw [List.append_assoc, bare_append, hbefore, bare_append, hinserted, hflat, ← List.append_assoc]
  rw [hflat] at hitem
  generalize bare false before = front at haccepted hgap ⊢
  generalize bare false after = rear at haccepted hgap ⊢
  -- trimming takes nothing from where the annotations are put, since the text in front ends solid
  have hsolid := hgap.endsSolid
  have hsolid' : EndsSolid (trimLeft (itemBefore front ++ as.flatten)) := by
    rw [trimLeft_append hsolid]
    exact hsolid.append_flatten has
  have htrim := trim_append hsolid (itemAfter rear)
  have htrim' := trim_append hsolid' (itemAfter rear)
  rw [trimLeft_append hsolid] at htrim'
  have hne : trim (itemBefore front ++ itemAfter rear) ≠ [] :=
    htrim ▸ hsolid.append_ne_nil _
  have hne' : trim (itemBefore front ++ as.flatten ++ itemAfter rear) ≠ [] :=
    htrim' ▸ (hsolid.append_flatten has).append_ne_nil _
  have hpre : trimRight (itemAfter rear) <+: rear :=
    (List.rdropWhile_prefix _ _).trans (List.takeWhile_prefix _)
  obtain ⟨item, hread⟩ := exists_read_of_accepted haccepted hne
  have hread' : Item.read (trim (itemBefore front ++ as.flatten ++ itemAfter rear)) = .ok item := by
    rw [htrim] at hread
    rw [htrim']
    exact (hgap.of_shorter hpre).read has hread
  have hinterchangeable : Interchangeable settings (itemBefore front ++ itemAfter rear)
      (itemBefore front ++ as.flatten ++ itemAfter rear) := by
    refine interchangeable_of_read (iff_of_false hne hne') ?_
    rw [hread, hread']
    exact Item.Alike.refl item
  rw [← outcomeOf_insert hitem hinterchangeable]
  exact haccepted

end FlatZinc

namespace Reader

open Text FlatZinc

/-- **Annotations.** A model that is accepted is decoded to the same instance when annotations are
inserted, any number of them at any number of places. -/
theorem next_of_annotated {settings : FlatZinc.Settings} {text text' : List Char} {inst : Instance}
    {seekable : Bool} {chunk : ℕ} (h : Relation.ReflTransGen Annotated text text')
    (haccepted : (next ⟨.flatZinc settings, {}⟩ (.ofBytes (utf8 text) seekable chunk)).1 =
      .ok (some inst)) (seekable' : Bool) (chunk' : ℕ) :
    (next ⟨.flatZinc settings, {}⟩ (.ofBytes (utf8 text') seekable' chunk')).1 =
      .ok (some inst) := by
  have hiff : ∀ (cs : List Char) (seekable : Bool) (chunk : ℕ),
      (next ⟨.flatZinc settings, {}⟩ (.ofBytes (utf8 cs) seekable chunk)).1 = .ok (some inst) ↔
        outcomeOf settings (bare false cs) = .ok inst := by
    intro cs seekable chunk
    have hbare := next_bare settings cs seekable chunk
    constructor
    · intro hok
      rw [hok] at hbare
      obtain ⟨inst', hinst', heq⟩ := map_eq_ok.1 hbare.symm
      rw [hinst', Option.some.inj heq]
    · intro hok
      rw [hok] at hbare
      exact mapError_eq_ok.1 hbare
  rw [hiff] at haccepted ⊢
  induction h with
  | refl => exact haccepted
  | tail _ hstep ih => exact outcomeOf_annotated hstep ih

/-- Two annotations behind the name of a variable, one of them with a string literal and a comment,
and one in front of the goal leave the instance as it is. -/
theorem next_of_annotated_twice :
    let text := "int: n = 2;\nvar 0..5: x;\nconstraint int_lin_le([1], [x], n);\nsolve satisfy;\n"
    let text' := "int: n = 2;\nvar 0..5: x :: output_var\n::a( \"b (c)\", % d;\n[1..2]);\n" ++
      "constraint int_lin_le([1], [x], n);\nsolve :: first_fail satisfy;\n"
    let decoded (text : String) :=
      (next ⟨.flatZinc {}, {}⟩ (.ofBytes (utf8 text.toList) true 64)).1
    Relation.ReflTransGen Annotated text.toList text'.toList ∧
      ∃ inst, decoded text = .ok (some inst) ∧ decoded text' = .ok (some inst) := by
  intro text text' decoded
  have hargs : Balanced (" \"b ".toList ++ ('(' :: "c".toList ++ ')' :: ("\", ".toList ++
      ('[' :: "1..2".toList ++ ']' :: [])))) :=
    .append_of_all rfl (.nest rfl rfl (.of_all rfl)
      (.append_of_all rfl (.nest rfl rfl (.of_all rfl) .nil)))
  have hword : IsAnnotation (" ".toList ++ "::".toList ++ " ".toList ++ "output_var".toList) :=
    .word rfl rfl ⟨rfl, rfl⟩
  have hcall : IsAnnotation ("\n".toList ++ "::".toList ++ [] ++ "a".toList ++ [] ++
      ('(' :: _ ++ [')'])) := .call rfl rfl ⟨rfl, rfl⟩ rfl hargs
  have hgoal : IsAnnotation (" ".toList ++ "::".toList ++ " ".toList ++ "first_fail".toList) :=
    .word rfl rfl ⟨rfl, rfl⟩
  have hname : Annotated text.toList
      ("int: n = 2;\nvar 0..5: x :: output_var\n::a( \"b (c)\", % d;\n[1..2]);\n" ++
        "constraint int_lin_le([1], [x], n);\nsolve satisfy;\n").toList := by
    have hplace : Place ("var".toList ++ (" 0..5".toList ++ ':' :: (" ".toList ++ "x".toList)))
        ";\nconstraint int_lin_le([1], [x], n);\nsolve satisfy;\n".toList :=
      .declared (by decide) (stops_cons rfl) (by decide) rfl ⟨rfl, rfl⟩ (stops_cons rfl)
    have hgap : Gap (trimLeft (itemBefore (bare false "int: n = 2;\nvar 0..5: x".toList)))
        (bare false ";\nconstraint int_lin_le([1], [x], n);\nsolve satisfy;\n".toList) := by
      have hbefore : trimLeft (itemBefore (bare false "int: n = 2;\nvar 0..5: x".toList)) =
        "var".toList ++ (" 0..5".toList ++ ':' :: (" ".toList ++ "x".toList)) := by decide +kernel
      rw [hbefore, bare_of_notMem (by decide +kernel)]
      exact .place hplace
    exact ⟨"int: n = 2;\nvar 0..5: x".toList,
      " :: output_var\n::a( \"b (c)\", % d;\n[1..2])".toList,
      ";\nconstraint int_lin_le([1], [x], n);\nsolve satisfy;\n".toList, by decide +kernel,
      by decide +kernel, by decide +kernel, by decide +kernel, hgap, by decide +kernel, [_, _],
      List.forall_mem_cons.2 ⟨hword, List.forall_mem_singleton.2 hcall⟩, by decide +kernel⟩
  have hsolve : Annotated
      ("int: n = 2;\nvar 0..5: x :: output_var\n::a( \"b (c)\", % d;\n[1..2]);\n" ++
        "constraint int_lin_le([1], [x], n);\nsolve satisfy;\n").toList text'.toList := by
    have hgap : Gap (trimLeft (itemBefore (bare false
        ("int: n = 2;\nvar 0..5: x :: output_var\n::a( \"b (c)\", % d;\n[1..2]);\n" ++
          "constraint int_lin_le([1], [x], n);\nsolve").toList)))
        (bare false " satisfy;\n".toList) := by
      have hbefore : trimLeft (itemBefore (bare false
          ("int: n = 2;\nvar 0..5: x :: output_var\n::a( \"b (c)\", % d;\n[1..2]);\n" ++
            "constraint int_lin_le([1], [x], n);\nsolve").toList)) = "solve".toList := by
        decide +kernel
      rw [hbefore, bare_of_notMem (by decide +kernel)]
      exact .place (.solve (stops_cons rfl))
    exact ⟨("int: n = 2;\nvar 0..5: x :: output_var\n::a( \"b (c)\", % d;\n[1..2]);\n" ++
      "constraint int_lin_le([1], [x], n);\nsolve").toList, " :: first_fail".toList,
      " satisfy;\n".toList, by decide +kernel, by decide +kernel, by decide +kernel,
      by decide +kernel, hgap, by decide +kernel, [_], List.forall_mem_singleton.2 hgoal,
      by decide +kernel⟩
  have hinserted : Relation.ReflTransGen Annotated text.toList text'.toList :=
    .tail (.single hname) hsolve
  obtain ⟨inst, hinst⟩ := exists_eq_ok_some (x := decoded text) (by decide +kernel)
  exact ⟨hinserted, inst, hinst, next_of_annotated hinserted hinst true 64⟩

/-- A string literal in an annotation is not told apart from other text: a semicolon in it ends the
item, a percent sign begins a comment, and a bracket is waited for.  The model is accepted without
the annotation and refused with it. -/
theorem next_of_literal_in_annotation :
    let before := "var bool: b"
    let after := ";\nsolve satisfy;\n"
    let decoded (text : String) :=
      (next ⟨.flatZinc {}, {}⟩ (.ofBytes (utf8 text.toList) true 64)).1
    (decoded (before ++ after)).isOk = true ∧
      ∀ inserted ∈ [" :: a(\";\")", " :: a(\"%\")", " :: a(\"(\")"],
        (decoded (before ++ inserted ++ after)).isOk = false := by
  decide +kernel

end Reader

end LinearInterchange
