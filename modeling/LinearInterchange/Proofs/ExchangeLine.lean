import LinearInterchange.Format.Exchange.Writer
import LinearInterchange.Proofs.NumberText

/-!
# Lines of the exchange format, written and read

Every line that the writer of the exchange format makes of an instance is read back as the line
that it was made of.  The alternatives of a line differ in their first letter, and each part of a
line ends at a blank, so what a parser takes is what the writer put there.  `Line.WrittenAs` adds
what is needed to find the lines of a text again: a line does not end in white space and holds no
line feed.
-/

namespace LinearInterchange.Exchange

open Text Parser

/-- The text has no white space. -/
def IsSolid (cs : List Char) : Prop :=
  ∀ c ∈ cs, isBlank c = false

instance (cs : List Char) : Decidable (IsSolid cs) :=
  List.decidableBAll _ cs

variable {cs : List Char}

lemma IsSolid.stops_reverse (h : IsSolid cs) : Stops isBlank cs.reverse := by
  intro c hc
  exact h c (List.mem_reverse.1 (List.mem_of_mem_head? hc))

lemma IsSolid.no_feed (h : IsSolid cs) : '\n' ∉ cs := by
  intro hmem
  have := h _ hmem
  cases this

namespace Line

variable {α : Type} {p : Parser α} {rest : List Char}

/-! ## Parts of a line -/

lemma isSpace_of_not_isBlank {c : Char} (h : isBlank c = false) : isSpace c = false := by
  rw [Bool.eq_false_iff]
  intro hspace
  have hc : c = ' ' ∨ c = '\t' := by simpa [isSpace] using hspace
  rcases hc with rfl | rfl <;> cases h

lemma isSpace_of_isDigit {c : Char} (h : c.isDigit = true) : isSpace c = false :=
  isSpace_of_not_isBlank (isBlank_of_isDigit h)

/-- A part of a line is read after the blank in front of it. -/
lemma spaced_blank (h : Stops isSpace cs) : spaced p (' ' :: cs) = p cs :=
  bind_of_eq_some (spaces1_blank h)

lemma spaced_of_stops (h : Stops isSpace cs) : spaced p cs = none :=
  bind_of_eq_none (spaces1_of_stops h)

/-- An index is read after a blank. -/
lemma spaced_index (n : UInt32) (h : Stops Char.isDigit rest) :
    spaced index (' ' :: ((toString n).toList ++ rest)) = some (n, rest) := by
  have hstops : Stops isSpace ((toString n).toList ++ rest) := by
    rw [toList_toString_index]
    exact stops_digits fun _ => isSpace_of_isDigit
  rw [spaced_blank hstops, index_append n h]

lemma spaced_word (w : Int64) (h : Stops Char.isDigit rest) :
    spaced word (' ' :: ((toString w).toList ++ rest)) = some (w, rest) := by
  have hstops : Stops isSpace ((toString w).toList ++ rest) :=
    stops_toString_int (fun _ => isSpace_of_isDigit) (by decide)
  rw [spaced_blank hstops, word_append w h]

lemma spaced_fractionToken (c : Coeff) (h : Stops (fun d => d.isDigit || d == '/') rest) :
    spaced fractionToken (' ' :: (c.toText.toList ++ rest)) = some (c.toText.toList, rest) := by
  have hstops : Stops isSpace (c.toText.toList ++ rest) :=
    Coeff.stops_toText (fun _ => isSpace_of_isDigit) (by decide)
  rw [spaced_blank hstops, fractionToken_append c h]

/-! ## Weighted variables -/

/-- The text of a weighted variable, with the blanks in front of its parts. -/
def termChars (t : Term) : List Char :=
  ' ' :: (t.coeff.toText.toList ++ ' ' :: (toString t.var.id).toList)

/-- The text of weighted variables is that of one after another. -/
lemma toList_renderTerms (ts : List Term) :
    (renderTerms (Exchange.termTexts ts)).toList = ts.flatMap termChars := by
  have hterm : ∀ t : Term, (" " ++ String.ofList t.coeff.toText.toList ++ " " ++
      toString t.var.id).toList = termChars t := by
    intro t
    simp [termChars, String.toList_append]
  rw [renderTerms, String.toList_join, Exchange.termTexts, List.map_map, List.flatMap_map]
  exact congrArg ts.flatMap (funext hterm)

lemma stops_terms {class_ : Char → Bool} (h : class_ ' ' = false) (ts : List Term) :
    Stops class_ (ts.flatMap termChars) := by
  cases ts with
  | nil => exact stops_nil _
  | cons t ts => exact stops_cons h

/-- Weighted variables are read to the end of the line. -/
lemma termTexts_flatMap (ts : List Term) :
    termTexts (ts.flatMap termChars) = some (Exchange.termTexts ts, []) := by
  induction ts with
  | nil => exact many_of_eq_none (spaced_of_stops (stops_nil _))
  | cons t ts ih =>
    rw [List.flatMap_cons, termChars, List.cons_append, List.append_assoc, List.cons_append]
    refine many_of_eq_some (a := (t.coeff.toText.toList, t.var.id)) ?_ ?_ ih
    · have hstops : Stops isSpace (t.coeff.toText.toList ++
          ' ' :: ((toString t.var.id).toList ++ ts.flatMap termChars)) :=
        Coeff.stops_toText (fun _ => isSpace_of_isDigit) (by decide)
      rw [spaced_blank hstops,
        bind_of_eq_some (fractionToken_append t.coeff (stops_cons (by decide))),
        bind_of_eq_some (spaced_index t.var.id (stops_terms (by decide) ts))]
      rfl
    · simp only [List.length_cons, List.length_append]
      omega

/-! ## Whole lines -/

/-- A text is a line if one of the alternatives takes all of it. -/
lemma read?_eq_some {line : Line}
    (h : (commentLine <|> nameLine <|> varLine <|> objectiveLine <|> constrLine) cs
      = some (line, [])) : read? cs = some line := by
  refine parseWhole?_eq_some ?_
  rw [bind_of_eq_some h]
  rfl

variable {line : Line}

/-- An alternative is passed over on a line that begins with another letter. -/
lemma orElse_of_char_ne {c d : Char} {f : Unit → Parser Line} {q : Parser Line} (h : d ≠ c) :
    ((char c >>= f) <|> q) (d :: cs) = q (d :: cs) := by
  have hchar : char c (d :: cs) = none := char_of_stops (stops_cons (beq_eq_false_iff_ne.2 h))
  exact orElse_of_eq_none (bind_of_eq_none hchar)

/-- A line that begins with the letter of comments is a comment if it can be read as one. -/
lemma read?_of_commentLine (h : commentLine ('c' :: cs) = some (line, [])) :
    read? ('c' :: cs) = some line :=
  read?_eq_some (orElse_of_eq_some h)

lemma read?_of_nameLine (h : nameLine ('n' :: cs) = some (line, [])) :
    read? ('n' :: cs) = some line := by
  apply read?_eq_some
  rw [commentLine, orElse_of_char_ne (by decide)]
  exact orElse_of_eq_some h

lemma read?_of_varLine (h : varLine ('v' :: cs) = some (line, [])) :
    read? ('v' :: cs) = some line := by
  apply read?_eq_some
  rw [commentLine, orElse_of_char_ne (by decide), nameLine, orElse_of_char_ne (by decide)]
  exact orElse_of_eq_some h

/-- A line that begins with the letter of objectives is an objective if it can be read as one. -/
lemma read?_of_objectiveLine (h : objectiveLine ('o' :: cs) = some (line, [])) :
    read? ('o' :: cs) = some line := by
  apply read?_eq_some
  rw [commentLine, orElse_of_char_ne (by decide), nameLine, orElse_of_char_ne (by decide), varLine,
    orElse_of_char_ne (by decide)]
  exact orElse_of_eq_some h

/-- A line that begins with the letter of constraints is a constraint if it can be read as one. -/
lemma read?_of_constrLine (h : constrLine ('k' :: cs) = some (line, [])) :
    read? ('k' :: cs) = some line := by
  apply read?_eq_some
  rw [commentLine, orElse_of_char_ne (by decide), nameLine, orElse_of_char_ne (by decide), varLine,
    orElse_of_char_ne (by decide), objectiveLine, orElse_of_char_ne (by decide)]
  exact h

/-- The line is read from the text, which ends without white space and holds no line feed. -/
structure WrittenAs (line : Line) (text : String) : Prop where
  /-- Reading the text gives the line. -/
  read_eq : read? text.toList = some line
  /-- White space at the end of the text is not part of it. -/
  ends : Stops isBlank text.toList.reverse
  /-- The text is a single line. -/
  no_feed : '\n' ∉ text.toList

/-- A text ends as its last part does. -/
lemma stops_reverse_append {class_ : Char → Bool} {l w : List Char} (hne : w ≠ [])
    (hw : Stops class_ w.reverse) : Stops class_ (l ++ w).reverse := by
  rw [List.reverse_append]
  cases hr : w.reverse with
  | nil => exact absurd (List.reverse_eq_nil_iff.1 hr) hne
  | cons c cs => exact stops_cons (hw c (by rw [hr]; rfl))

lemma isSolid_index (n : UInt32) : IsSolid (toString n).toList := by
  intro c hc
  rw [toList_toString_index] at hc
  exact isBlank_of_isDigit (isDigit_of_mem hc)

lemma isSolid_word (w : Int64) : IsSolid (toString w).toList := by
  intro c hc
  rcases isDigit_or_minus (z := w.toInt) hc with hdigit | rfl
  · exact isBlank_of_isDigit hdigit
  · decide

lemma isSolid_coeff (c : Coeff) : IsSolid c.toText.toList :=
  fun _ => Coeff.isBlank_of_mem_toText

lemma index_ne_nil (n : UInt32) : (toString n).toList ≠ [] := by
  rw [toList_toString_index]
  exact Nat.toDigits_ne_nil

/-- Weighted variables hold no line feed. -/
lemma no_feed_terms (ts : List Term) : '\n' ∉ ts.flatMap termChars := by
  intro hmem
  obtain ⟨t, -, ht⟩ := List.mem_flatMap.1 hmem
  rw [termChars, List.mem_cons, List.mem_append, List.mem_cons] at ht
  rcases ht with ht | ht | ht | ht
  · cases ht
  · exact (isSolid_coeff _).no_feed ht
  · cases ht
  · exact (isSolid_index _).no_feed ht

/-- A text followed by weighted variables does not end in white space if it does not itself. -/
lemma stops_reverse_terms {l : List Char} (h : Stops isBlank l.reverse) (ts : List Term) :
    Stops isBlank (l ++ ts.flatMap termChars).reverse := by
  cases hts : ts.reverse with
  | nil =>
    rw [List.reverse_eq_nil_iff.1 hts, List.flatMap_nil, List.append_nil]
    exact h
  | cons t us =>
    have hsplit : ts = us.reverse ++ [t] := by
      rw [← List.reverse_reverse ts, hts, List.reverse_cons]
    have hlast : l ++ ts.flatMap termChars =
        (l ++ us.reverse.flatMap termChars ++ ' ' :: (t.coeff.toText.toList ++ [' '])) ++
          (toString t.var.id).toList := by
      simp [hsplit, termChars, List.flatMap_append]
    rw [hlast]
    exact stops_reverse_append (index_ne_nil _) (isSolid_index _).stops_reverse

/-! ## The lines of an instance -/

/-- A text that is trimmed begins and ends without white space. -/
lemma stops_of_trim {n : List Char} (hne : n ≠ []) (htrim : trim n = n) :
    Stops isBlank n ∧ Stops isBlank n.reverse := by
  have hdrop : ∀ l : List Char, Stops isBlank (l.dropWhile isBlank) := fun l c hc => by
    have h := List.head?_dropWhile_not isBlank l
    rw [Option.mem_def.1 hc] at h
    simpa using h
  constructor
  · -- a trimmed text is a beginning of the text without the white space in front
    have hpre : n <+: trimLeft n := by
      have h := List.dropWhile_suffix (l := (trimLeft n).reverse) isBlank
      rw [← List.reverse_prefix, List.reverse_reverse] at h
      rwa [← trimRight, ← trim, htrim] at h
    obtain ⟨rest, hrest⟩ := hpre
    have hstops := hdrop n
    rw [← trimLeft, ← hrest] at hstops
    cases n with
    | nil => exact absurd rfl hne
    | cons c cs => exact stops_cons (hstops c rfl)
  · rw [← htrim, trim, trimRight, List.reverse_reverse]
    exact hdrop _

/-- The name of an instance is written and read. -/
lemma writtenAs_name {n : List Char} (hne : n ≠ []) (htrim : trim n = n) (hfeed : '\n' ∉ n) :
    (Line.name n).WrittenAs (Line.name n).render := by
  obtain ⟨hfirst, hlast⟩ := stops_of_trim hne htrim
  have htext : (Line.name n).render.toList = 'n' :: ' ' :: n := by
    simp [render, String.toList_append]
  constructor
  case read_eq =>
    have hspace : Stops isSpace n := fun c hc => isSpace_of_not_isBlank (hfirst c hc)
    rw [htext]
    apply read?_of_nameLine
    rw [nameLine, bind_of_eq_some (char_cons _ _),
      bind_of_eq_some ((spaced_blank hspace).trans (run_all n)), htrim]
    rfl
  case ends =>
    rw [htext]
    exact stops_reverse_append (l := ['n', ' ']) hne hlast
  case no_feed =>
    rw [htext]
    simpa using hfeed

/-- The comment at the head of a text is written and read. -/
lemma writtenAs_header (inst : Instance) : Line.comment.WrittenAs (header inst) := by
  have htext : (header inst).toList = 'c' :: ' ' :: (Nat.toDigits 10 inst.order.length ++
      (" variables, ".toList ++ (Nat.toDigits 10 inst.constrs.length ++
        " constraints, written by ilpconv".toList))) := by
    simp only [header, String.toList_append, toList_toString_nat, List.append_assoc]
    rfl
  have hdigits : ∀ n : ℕ, '\n' ∉ Nat.toDigits 10 n := by
    intro n hmem
    have h : '\n'.isDigit = true := isDigit_of_mem hmem
    cases h
  constructor
  case read_eq =>
    rw [htext]
    apply read?_of_commentLine
    have hspace := (spaced_blank (stops_digits fun _ => isSpace_of_isDigit)).trans
      (run_all (Nat.toDigits 10 inst.order.length ++ (" variables, ".toList ++
        (Nat.toDigits 10 inst.constrs.length ++ " constraints, written by ilpconv".toList))))
    rw [commentLine, bind_of_eq_some (char_cons _ _),
      bind_of_eq_some (optional?_of_eq_some hspace)]
    rfl
  case ends =>
    have hend : Stops isBlank " constraints, written by ilpconv".toList.reverse :=
      stops_cons (c := 'v') rfl
    rw [htext, ← List.append_assoc, ← List.append_assoc]
    exact stops_reverse_append (l := 'c' :: ' ' :: _) (by decide) hend
  case no_feed =>
    rw [htext]
    simp only [List.mem_cons, List.mem_append, not_or]
    exact ⟨by decide, by decide, hdigits _, by decide, hdigits _, by decide⟩

/-- The text of a domain. -/
def domainChars : Domain → List Char
  | .bool => ['b']
  | .range lb ub => 'i' :: ' ' :: ((toString lb).toList ++ ' ' :: (toString ub).toList)

/-- The bounds that are written for a domain. -/
def boundsOf : Domain → Option (Int64 × Int64)
  | .bool => none
  | .range lb ub => some (lb, ub)

/-- The domain of a variable is read up to its end. -/
lemma domainText_append (d : Domain) (h : Stops Char.isDigit rest) :
    domainText (domainChars d ++ rest) = some (boundsOf d, rest) := by
  cases d with
  | bool =>
    refine orElse_of_eq_some ?_
    rw [domainChars, List.singleton_append, bind_of_eq_some (char_cons _ _)]
    rfl
  | range lb ub =>
    have hbool : char 'b' ('i' :: ' ' :: ((toString lb).toList ++
        ' ' :: ((toString ub).toList ++ rest))) = none := char_of_stops (stops_cons (by decide))
    have hub : Stops Char.isDigit (' ' :: ((toString ub).toList ++ rest)) := stops_cons (by decide)
    rw [domainText, domainChars, List.cons_append, List.cons_append, List.append_assoc,
      List.cons_append, orElse_of_eq_none (bind_of_eq_none hbool),
      bind_of_eq_some (char_cons _ _), bind_of_eq_some (spaced_word lb hub),
      bind_of_eq_some (spaced_word ub h)]
    rfl

/-- The suffix of a variable that tells where it comes from. -/
def originChars (o : Origin) : List Char :=
  if o = .auxiliary then ' ' :: "aux".toList else []

/-- The suffix of an auxiliary variable is read, and nothing in its place. -/
lemma optional?_originChars (o : Origin) :
    optional? (spaced (literal "aux".toList)) (originChars o) =
      some (if o = .auxiliary then some () else none, []) := by
  cases o with
  | user => exact optional?_of_eq_none (spaced_of_stops (stops_nil _))
  | auxiliary =>
    refine optional?_of_eq_some ?_
    have hliteral := literal_append "aux".toList []
    rw [List.append_nil] at hliteral
    exact (spaced_blank (stops_cons (by decide))).trans hliteral

/-- The domain and the origin of a variable do not end in white space. -/
lemma stops_reverse_domain (d : Domain) (o : Origin) :
    Stops isBlank (domainChars d ++ originChars o).reverse := by
  cases o with
  | auxiliary => exact stops_reverse_append (List.cons_ne_nil _ _) (stops_cons (by decide))
  | user =>
    rw [originChars, if_neg (by decide), List.append_nil]
    cases d with
    | bool => exact stops_cons (by decide)
    | range lb ub =>
      have hub : (toString ub).toList ≠ [] := by
        show (toString ub.toInt).toList ≠ []
        rw [toList_toString_int]
        exact List.append_ne_nil_of_right_ne_nil _ Nat.toDigits_ne_nil
      have htext : domainChars (.range lb ub) =
          ('i' :: ' ' :: ((toString lb).toList ++ [' '])) ++ (toString ub).toList := by
        simp [domainChars]
      rw [htext]
      exact stops_reverse_append hub (isSolid_word ub).stops_reverse

/-- The domain and the origin of a variable hold no line feed. -/
lemma no_feed_domain (d : Domain) (o : Origin) : '\n' ∉ domainChars d ++ originChars o := by
  have horigin : '\n' ∉ originChars o := by cases o <;> decide
  have hdomain : '\n' ∉ domainChars d := by
    cases d with
    | bool => decide
    | range lb ub => simp [domainChars, (isSolid_word lb).no_feed, (isSolid_word ub).no_feed]
  rw [List.mem_append]
  exact not_or.2 ⟨hdomain, horigin⟩

lemma toList_render_varLine (x : Variable) :
    (Exchange.varLine x).render.toList = 'v' :: ' ' :: ((toString x.var.id).toList ++
      ' ' :: (x.name.toList ++ ' ' :: (domainChars x.domain ++ originChars x.origin))) := by
  cases hd : x.domain <;> cases ho : x.origin <;>
    simp [Exchange.varLine, render, String.toList_append, hd, ho, domainChars, originChars]

/-- The line of a variable holds its bounds. -/
lemma varLine_eq (x : Variable) : Exchange.varLine x =
    .var x.var.id x.name.toList (boundsOf x.domain) (decide (x.origin = .auxiliary)) := by
  rw [Exchange.varLine]
  cases x.domain <;> rfl

/-- A variable is written and read. -/
lemma writtenAs_varLine {x : Variable} (hne : x.name ≠ "") (hsolid : IsSolid x.name.toList) :
    (Exchange.varLine x).WrittenAs (Exchange.varLine x).render := by
  have hname : x.name.toList ≠ [] := by simpa using hne
  constructor
  case read_eq =>
    rw [toList_render_varLine]
    apply read?_of_varLine
    -- each token is read up to the blank behind it, so the parsers are told what they stop at
    set afterName := ' ' :: (domainChars x.domain ++ originChars x.origin) with hafter
    have hspace : Stops isSpace (x.name.toList ++ afterName) := by
      cases hcs : x.name.toList with
      | nil => exact absurd hcs hname
      | cons c cs =>
        exact stops_cons (isSpace_of_not_isBlank (hsolid c (hcs ▸ List.mem_cons_self)))
    have hrun : run1 (fun c => !isBlank c) (x.name.toList ++ afterName) =
        some (x.name.toList, afterName) :=
      run1_append (fun c hc => by rw [hsolid c hc]; rfl) hname (stops_cons (by decide))
    have hdomain : Stops isSpace (domainChars x.domain ++ originChars x.origin) := by
      cases x.domain <;> exact stops_cons (by decide)
    have horigin : Stops Char.isDigit (originChars x.origin) := by
      cases x.origin
      · exact stops_nil _
      · exact stops_cons (by decide)
    rw [Line.varLine, bind_of_eq_some (char_cons _ _),
      bind_of_eq_some (spaced_index x.var.id (stops_cons (by decide))),
      bind_of_eq_some ((spaced_blank hspace).trans hrun), hafter,
      bind_of_eq_some ((spaced_blank hdomain).trans (domainText_append x.domain horigin)),
      bind_of_eq_some (optional?_originChars x.origin)]
    rw [varLine_eq]
    cases x.origin <;> rfl
  case ends =>
    have htext : (Exchange.varLine x).render.toList =
        ('v' :: ' ' :: ((toString x.var.id).toList ++ ' ' :: (x.name.toList ++ [' ']))) ++
          (domainChars x.domain ++ originChars x.origin) := by
      rw [toList_render_varLine]
      simp
    have hne' : domainChars x.domain ++ originChars x.origin ≠ [] := by
      cases x.domain <;> exact List.cons_ne_nil _ _
    rw [htext]
    exact stops_reverse_append hne' (stops_reverse_domain _ _)
  case no_feed =>
    have hindex := (isSolid_index x.var.id).no_feed
    have hdomain := no_feed_domain x.domain x.origin
    rw [toList_render_varLine]
    simp only [List.mem_cons, List.mem_append, not_or] at hdomain ⊢
    exact ⟨by decide, by decide, hindex, by decide, hsolid.no_feed, by decide, hdomain⟩

/-- The word for a direction is read. -/
lemma directionText_append (d : Direction) (rest : List Char) :
    directionText ((directionWord d).toList ++ rest) = some (d, rest) := by
  cases d with
  | minimize => exact orElse_of_eq_some (bind_of_eq_some (literal_append "min".toList rest))
  | maximize =>
    refine (orElse_of_eq_none rfl).trans (orElse_of_eq_some ?_)
    exact bind_of_eq_some (literal_append "max".toList rest)
  | unspecified =>
    refine (orElse_of_eq_none rfl).trans ((orElse_of_eq_none rfl).trans ?_)
    exact bind_of_eq_some (literal_append "none".toList rest)

/-- The operator of a comparison is read. -/
lemma relationText_append (r : Relation) (rest : List Char) :
    relationText (r.symbol.toList ++ rest) = some (r, rest) := by
  cases r with
  | le => exact orElse_of_eq_some (bind_of_eq_some (literal_append "<=".toList rest))
  | ge =>
    refine (orElse_of_eq_none rfl).trans (orElse_of_eq_some ?_)
    exact bind_of_eq_some (literal_append ">=".toList rest)
  | eq =>
    refine (orElse_of_eq_none rfl).trans ((orElse_of_eq_none rfl).trans ?_)
    exact bind_of_eq_some (literal_append "=".toList rest)

/-- The objective is written and read. -/
lemma writtenAs_objective (o : Objective) :
    (Line.objective o.direction (Exchange.termTexts o.terms)).WrittenAs
      (Line.objective o.direction (Exchange.termTexts o.terms)).render := by
  have htext : (Line.objective o.direction (Exchange.termTexts o.terms)).render.toList =
      'o' :: ' ' :: ((directionWord o.direction).toList ++ o.terms.flatMap termChars) := by
    simp [render, String.toList_append, toList_renderTerms]
  have hword : IsSolid (directionWord o.direction).toList ∧
      (directionWord o.direction).toList ≠ [] := by
    cases o.direction <;> exact ⟨by decide, by decide⟩
  constructor
  case read_eq =>
    have hspace : Stops isSpace
        ((directionWord o.direction).toList ++ o.terms.flatMap termChars) := by
      cases o.direction <;> exact stops_cons (by decide)
    rw [htext]
    apply read?_of_objectiveLine
    rw [objectiveLine, bind_of_eq_some (char_cons _ _),
      bind_of_eq_some ((spaced_blank hspace).trans (directionText_append _ _)),
      bind_of_eq_some (termTexts_flatMap o.terms)]
    rfl
  case ends =>
    rw [htext]
    refine stops_reverse_terms (l := 'o' :: ' ' :: (directionWord o.direction).toList) ?_ o.terms
    exact stops_reverse_append (l := ['o', ' ']) hword.2 hword.1.stops_reverse
  case no_feed =>
    rw [htext]
    simp only [List.mem_cons, List.mem_append, not_or]
    exact ⟨by decide, by decide, hword.1.no_feed, no_feed_terms _⟩

/-- A constraint is written and read. -/
lemma writtenAs_constrLine (c : LinConstraint) :
    (Exchange.constrLine c).WrittenAs (Exchange.constrLine c).render := by
  have htext : (Exchange.constrLine c).render.toList =
      'k' :: ' ' :: (c.rel.symbol.toList ++
        ' ' :: (c.rhs.toText.toList ++ c.terms.flatMap termChars)) := by
    simp [Exchange.constrLine, render, String.toList_append, toList_renderTerms]
  constructor
  case read_eq =>
    have hspace : Stops isSpace (c.rel.symbol.toList ++
        ' ' :: (c.rhs.toText.toList ++ c.terms.flatMap termChars)) := by
      cases c.rel <;> exact stops_cons (by decide)
    rw [htext]
    apply read?_of_constrLine
    rw [Line.constrLine, bind_of_eq_some (char_cons _ _),
      bind_of_eq_some ((spaced_blank hspace).trans (relationText_append _ _)),
      bind_of_eq_some (spaced_fractionToken c.rhs (stops_terms (by decide) c.terms)),
      bind_of_eq_some (termTexts_flatMap c.terms)]
    rfl
  case ends =>
    have hends : (Exchange.constrLine c).render.toList =
        (('k' :: ' ' :: (c.rel.symbol.toList ++ [' '])) ++ c.rhs.toText.toList) ++
          c.terms.flatMap termChars := by
      rw [htext]
      simp
    rw [hends]
    exact stops_reverse_terms
      (stops_reverse_append c.rhs.toText_ne_nil (isSolid_coeff c.rhs).stops_reverse) c.terms
  case no_feed =>
    have hsymbol : '\n' ∉ c.rel.symbol.toList := by cases c.rel <;> decide
    rw [htext]
    simp only [List.mem_cons, List.mem_append, not_or]
    exact ⟨by decide, by decide, hsymbol, by decide, (isSolid_coeff c.rhs).no_feed,
      no_feed_terms _⟩

end Line

end LinearInterchange.Exchange
