import LinearInterchange.Proofs.FlatZincItems

/-!
# Comments as layout

A comment of a FlatZinc model is taken out together with the end of its line.  If there is no other
layout where the comment stood, then what it separated is put together: two words become one.
Elsewhere the end of the line makes no difference, because the parsers of the items never look at
the amount of layout between two characters (`Spaced`).
-/

namespace LinearInterchange

namespace FlatZinc

open Text Text.Parser

/-! ## Texts with different layout -/

/-- The texts differ in their layout only, and where there is layout in one of them, there is layout
in the other one. -/
inductive Spaced : List Char → List Char → Prop
  | nil : Spaced [] []
  | keep (c : Char) {cs cs' : List Char} : Spaced cs cs' → Spaced (c :: cs) (c :: cs')
  | layout {w w' cs cs' : List Char} : w ≠ [] → w' ≠ [] → (∀ c ∈ w, isLayout c = true) →
      (∀ c ∈ w', isLayout c = true) → Spaced cs cs' → Spaced (w ++ cs) (w' ++ cs')

namespace Spaced

variable {cs cs' ds ds' : List Char}

/-- A text has the layout that it has. -/
lemma refl (cs : List Char) : Spaced cs cs := by
  induction cs with
  | nil => exact .nil
  | cons c cs ih => exact .keep c ih

/-- Layout may stand for other layout. -/
lemma of_layout {w w' : List Char} (hw : w ≠ []) (hw' : w' ≠ [])
    (hl : ∀ c ∈ w, isLayout c = true) (hl' : ∀ c ∈ w', isLayout c = true) : Spaced w w' := by
  simpa only [List.append_nil] using layout hw hw' hl hl' .nil

/-- Of two texts that differ in layout only, none is empty without the other one. -/
lemma nil_iff (h : Spaced cs cs') : cs = [] ↔ cs' = [] := by
  cases h with
  | nil => exact Iff.rfl
  | keep c h => simp
  | layout hw hw' _ _ _ => simp [hw, hw']

/-- Texts can be put together. -/
lemma append (h : Spaced cs cs') (h' : Spaced ds ds') : Spaced (cs ++ ds) (cs' ++ ds') := by
  induction h with
  | nil => exact h'
  | keep c _ ih => exact .keep c ih
  | layout hw hw' hl hl' _ ih =>
    rw [List.append_assoc, List.append_assoc]
    exact .layout hw hw' hl hl' ih

/-- Texts can be turned round. -/
lemma reverse (h : Spaced cs cs') : Spaced cs.reverse cs'.reverse := by
  induction h with
  | nil => exact .nil
  | keep c _ ih =>
    rw [List.reverse_cons, List.reverse_cons]
    exact ih.append (.refl [c])
  | layout hw hw' hl hl' _ ih =>
    rw [List.reverse_append, List.reverse_append]
    refine ih.append (of_layout ?_ ?_ ?_ ?_)
    · exact mt List.reverse_eq_nil_iff.1 hw
    · exact mt List.reverse_eq_nil_iff.1 hw'
    · exact fun c hc => hl c (List.mem_reverse.1 hc)
    · exact fun c hc => hl' c (List.mem_reverse.1 hc)

section Runs

variable {p : Char → Bool} (hp : ∀ c, isLayout c = true → p c = true)

include hp

/-- Runs that may have layout can be taken from both texts. -/
lemma dropWhile (h : Spaced cs cs') : Spaced (cs.dropWhile p) (cs'.dropWhile p) := by
  induction h with
  | nil => exact .nil
  | keep c h ih =>
    by_cases hc : p c = true
    · rw [List.dropWhile_cons_of_pos hc, List.dropWhile_cons_of_pos hc]
      exact ih
    · rw [List.dropWhile_cons_of_neg hc, List.dropWhile_cons_of_neg hc]
      exact .keep c h
  | layout _ _ hl hl' _ ih =>
    rw [List.dropWhile_append_of_pos fun c hc => hp c (hl c hc),
      List.dropWhile_append_of_pos fun c hc => hp c (hl' c hc)]
    exact ih

/-- Runs that may have layout differ in layout only. -/
lemma takeWhile (h : Spaced cs cs') : Spaced (cs.takeWhile p) (cs'.takeWhile p) := by
  induction h with
  | nil => exact .nil
  | keep c _ ih =>
    by_cases hc : p c = true
    · rw [List.takeWhile_cons_of_pos hc, List.takeWhile_cons_of_pos hc]
      exact .keep c ih
    · rw [List.takeWhile_cons_of_neg hc, List.takeWhile_cons_of_neg hc]
      exact .nil
  | layout hw hw' hl hl' _ ih =>
    rw [List.takeWhile_append_of_pos fun c hc => hp c (hl c hc),
      List.takeWhile_append_of_pos fun c hc => hp c (hl' c hc)]
    exact .layout hw hw' hl hl' ih

end Runs

lemma isBlank_of_isLayout {c : Char} (h : isLayout c = true) : isBlank c = true := by
  simp only [isLayout, Bool.or_eq_true, beq_iff_eq, or_assoc] at h
  rcases h with rfl | rfl | rfl | rfl <;> decide

/-- White space at the ends can be left out of both texts. -/
lemma trim (h : Spaced cs cs') : Spaced (trim cs) (trim cs') :=
  have hblank := fun c => isBlank_of_isLayout (c := c)
  ((h.dropWhile hblank).reverse.dropWhile hblank).reverse

/-- Up to layout, the texts are the same. -/
lemma agree : Agree (fun c => !isLayout c) Spaced := by
  intro cs cs' h
  cases h with
  | nil => exact .inl ⟨stops_nil _, stops_nil _⟩
  | keep c h =>
    cases hc : isLayout c with
    | true => exact .inl ⟨stops_cons (by simp [hc]), stops_cons (by simp [hc])⟩
    | false => exact .inr ⟨c, _, _, by simp [hc], rfl, rfl, h⟩
  | layout hw hw' hl hl' _ =>
    obtain ⟨c, w, rfl⟩ := List.exists_cons_of_ne_nil hw
    obtain ⟨c', w', rfl⟩ := List.exists_cons_of_ne_nil hw'
    have hc := hl c List.mem_cons_self
    have hc' := hl' c' List.mem_cons_self
    exact .inl ⟨stops_cons (by simp [hc]), stops_cons (by simp [hc'])⟩

/-- Characters within words, lists and ranges are not layout. -/
lemma agree_inner : Agree isInner Spaced := by
  refine agree.mono fun c hc => ?_
  by_contra hlayout
  simp only [Bool.not_eq_true', Bool.not_eq_false, isLayout, Bool.or_eq_true, beq_iff_eq,
    or_assoc] at hlayout
  rcases hlayout with rfl | rfl | rfl | rfl <;> cases hc

/-! ## Items with different layout -/

lemma layout_likens : Likens Spaced Spaced Eq Parser.layout Parser.layout :=
  .map (S := Spaced) (V := fun _ _ => True)
    (fun _ _ h => .some ⟨True.intro, h.dropWhile fun _ => id⟩) fun _ _ _ => rfl

/-- Runs that may have layout are taken from both texts, or from none. -/
lemma run1_likens {p : Char → Bool} (hp : ∀ c, isLayout c = true → p c = true) :
    Likens Spaced Spaced (fun _ _ => True) (run1 p) (run1 p) := by
  intro cs cs' h
  have hnil := (h.takeWhile hp).nil_iff
  unfold run1
  simp only [List.isEmpty_iff, hnil]
  split
  · exact .none
  · exact .some ⟨True.intro, h.dropWhile hp⟩

lemma layout1_likens : Likens Spaced Spaced Eq layout1 layout1 :=
  (run1_likens fun _ => id).map fun _ _ _ => rfl

lemma literal_likens {w : String} (hw : (w.toList.all fun c => !isLayout c) = true) :
    Likens Spaced Spaced Eq (literal w.toList) (literal w.toList) :=
  agree.literal hw

lemma char_likens {c : Char} (hc : (!isLayout c) = true) :
    Likens Spaced Spaced Eq (padded (char c)) (padded (char c)) :=
  (agree.char hc).padded layout_likens

/-- Brackets are closed in both texts, or in none. -/
lemma closing (h : Spaced cs cs') (depth : ℕ) :
    Option.Rel Spaced (closing depth cs) (closing depth cs') := by
  induction h generalizing depth with
  | nil => exact .none
  | keep c h ih =>
    by_cases hopen : c = '(' ∨ c = '['
    · rw [closing_open hopen, closing_open hopen]
      exact ih _
    · by_cases hclose : c = ')' ∨ c = ']'
      · rw [closing_close hclose, closing_close hclose]
        split
        · exact .none
        · exact .some h
        · exact ih _
      · rw [closing_other hopen hclose, closing_other hopen hclose]
        exact ih _
  | layout _ _ hl hl' _ ih =>
    rw [closing_layout_append hl, closing_layout_append hl']
    exact ih depth

/-- Behind layout, both texts go on with the same character. -/
lemma head?_dropWhile (h : Spaced cs cs') :
    (cs.dropWhile isLayout).head? = (cs'.dropWhile isLayout).head? := by
  induction h with
  | nil => rfl
  | keep c h ih =>
    by_cases hc : isLayout c = true
    · rw [List.dropWhile_cons_of_pos hc, List.dropWhile_cons_of_pos hc]
      exact ih
    · rw [List.dropWhile_cons_of_neg hc, List.dropWhile_cons_of_neg hc]
      rfl
  | layout _ _ hl hl' _ ih =>
    rw [List.dropWhile_append_of_pos hl, List.dropWhile_append_of_pos hl']
    exact ih

/-- Arguments are skipped in both texts. -/
lemma skipArgs_likens : Likens Spaced Spaced Eq skipArgs skipArgs := by
  intro cs cs' h
  rw [skipArgs_eq, skipArgs_eq, h.head?_dropWhile]
  split
  · have hclosing := closing (h.dropWhile (p := isLayout) fun _ => id) 0
    generalize FlatZinc.closing 0 (cs.dropWhile isLayout) = x at hclosing ⊢
    generalize FlatZinc.closing 0 (cs'.dropWhile isLayout) = y at hclosing ⊢
    cases hclosing with
    | none => exact .none
    | some hrest => exact .some ⟨rfl, hrest⟩
  · exact .some ⟨rfl, h⟩

/-- Annotations are skipped in both texts. -/
lemma annotations_likens : Likens Spaced Spaced Eq annotations annotations := by
  have hcolons : Likens Spaced Spaced Eq (literal "::".toList) (literal "::".toList) :=
    literal_likens (by decide)
  refine FlatZinc.annotations_likens ?_ fun cs cs' h => ?_
  · refine layout_likens.andThen fun _ => hcolons.andThen fun _ => ?_
    refine layout_likens.andThen fun _ => (ident_likens agree_inner).andThen fun _ => ?_
    exact skipArgs_likens
  · rw [annotated, annotated, ← isSome_literal, ← isSome_literal]
    exact hcolons.isSome_eq (h.dropWhile fun _ => id)

lemma expr_likens : Likens Spaced Spaced Eq expr expr :=
  FlatZinc.expr_likens agree_inner layout_likens

lemma assigned_likens : Likens Spaced Spaced Eq assigned assigned :=
  (char_likens (by decide)).andThen fun _ => expr_likens

/-- A type is read from both texts.  One that is not supported may be worded differently. -/
lemma varType_likens :
    Likens Spaced Spaced (fun type type' => ∀ name value,
      (Item.var type name value).Alike (.var type' name value)) varType varType := by
  have hsame : ∀ {p : Parser VarType}, Likens Spaced Spaced Eq p p →
      Likens Spaced Spaced (fun type type' => ∀ name value,
        (Item.var type name value).Alike (.var type' name value)) p p := fun hp =>
    hp.imp (fun _ _ h => h) (fun a b hab name value => hab ▸ .refl _) fun _ _ h => h
  have hrange := (range_likens agree_inner layout_likens).padded layout_likens
  refine .orElse (hsame ?_) (.orElse (hsame ?_) (.orElse (hsame ?_) ?_))
  · exact (literal_likens (by decide)).andThen fun _ => layout_likens.andThen fun _ => .pure rfl
  · exact (literal_likens (by decide)).andThen fun _ => layout_likens.andThen fun _ => .pure rfl
  · exact hrange.andThen fun bounds => .pure rfl
  · exact (run1_likens (bne_of_class rfl)).bind fun _ _ _ => .pure fun _ _ => ⟨rfl, rfl⟩

/-- A variable is read from both texts. -/
lemma varItem_likens : Likens Spaced Spaced Item.Alike varItem varItem := by
  refine (literal_likens (by decide)).andThen fun _ => layout1_likens.andThen fun _ => ?_
  refine varType_likens.bind fun type type' htype => (char_likens (by decide)).andThen fun _ => ?_
  refine (ident_likens agree_inner).andThen fun name => annotations_likens.andThen fun _ => ?_
  exact assigned_likens.optional?.andThen fun value => .pure (htype name value)

/-- An array is read from both texts. -/
lemma arrayItem_likens : Likens Spaced Spaced Item.Alike arrayItem arrayItem := by
  have hvar : Likens Spaced Spaced Eq (do literal "var".toList; layout1)
      (do literal "var".toList; layout1) :=
    (literal_likens (by decide)).andThen fun _ => layout1_likens
  refine (literal_likens (by decide)).andThen fun _ => (char_likens (by decide)).andThen fun _ => ?_
  refine (range_likens agree_inner layout_likens).andThen fun _ => ?_
  refine (char_likens (by decide)).andThen fun _ => (literal_likens (by decide)).andThen fun _ => ?_
  refine layout1_likens.andThen fun _ => hvar.optional?.andThen fun ofVars => ?_
  refine (run1_likens (bne_of_class rfl)).bind fun _ _ _ => ?_
  refine (agree.char (by decide)).andThen fun _ => ?_
  refine ((ident_likens agree_inner).padded layout_likens).andThen fun name => ?_
  exact annotations_likens.andThen fun _ => assigned_likens.andThen fun value => .pure (.refl _)

/-- A parameter is read from both texts. -/
lemma paramItem_likens : Likens Spaced Spaced Item.Alike paramItem paramItem := by
  refine .andThen (.orElse (literal_likens (by decide)) (literal_likens (by decide))) fun _ => ?_
  refine (char_likens (by decide)).andThen fun _ => ?_
  refine (ident_likens agree_inner).andThen fun name => ?_
  exact annotations_likens.andThen fun _ => assigned_likens.andThen fun value => .pure (.refl _)

/-- A constraint is read from both texts. -/
lemma constrItem_likens : Likens Spaced Spaced Item.Alike constrItem constrItem := by
  have hargs : Likens Spaced Spaced Eq (sepBy (char ',') (padded expr))
      (sepBy (char ',') (padded expr)) := by
    have htakes : Takes 0 (padded expr) := .padded (takes_expr.mono (Nat.zero_le 1))
    exact .sepBy (agree.char (by decide)) (expr_likens.padded layout_likens) (.char ',') (.char ',')
      htakes htakes
  refine (literal_likens (by decide)).andThen fun _ => layout1_likens.andThen fun _ => ?_
  refine (ident_likens agree_inner).andThen fun name => ?_
  refine (char_likens (by decide)).andThen fun _ => ?_
  refine hargs.andThen fun args => (agree.char (by decide)).andThen fun _ => ?_
  exact annotations_likens.andThen fun _ => .pure (.refl _)

/-- A goal is read from both texts. -/
lemma solveItem_likens : Likens Spaced Spaced Item.Alike solveItem solveItem := by
  have hdirection : Likens Spaced Spaced Eq goalDirection goalDirection :=
    .orElse ((literal_likens (by decide)).andThen fun _ => .pure rfl)
      ((literal_likens (by decide)).andThen fun _ => .pure rfl)
  refine (literal_likens (by decide)).andThen fun _ => annotations_likens.andThen fun _ => ?_
  refine layout_likens.andThen fun _ => .orElse ?_ ?_
  · exact (literal_likens (by decide)).andThen fun _ => .pure (.refl _)
  · refine hdirection.andThen fun direction => layout1_likens.andThen fun _ => ?_
    exact expr_likens.andThen fun e => .pure (.refl _)

/-- Whatever the keyword, an item is read from both texts. -/
lemma parser_likens {keyword : List Char} {p : Parser Item} (hp : parserOf? keyword = some p) :
    Likens Spaced Spaced Item.Alike p p := by
  unfold parserOf? at hp
  split at hp <;> cases hp
  · exact varItem_likens
  · exact arrayItem_likens
  · exact paramItem_likens
  · exact paramItem_likens
  · exact constrItem_likens
  · exact solveItem_likens

/-- Items that differ in layout only, apart from white space at their ends, are interchangeable. -/
lemma interchangeable {settings : Settings} {text text' : List Char}
    (h : Spaced (Text.trim text) (Text.trim text')) : Interchangeable settings text text' := by
  refine interchangeable_of_read h.nil_iff ?_
  refine read_alike (keywordOf_eq (ident_likens agree_inner) h) fun p hp => ?_
  have hend : Likens Spaced Spaced Item.Alike (toEnd p) (toEnd p) :=
    (parser_likens hp).bind fun a b hab => layout_likens.andThen fun _ => .pure hab
  exact hend.parseWhole? (fun _ _ => nil_iff) h

end Spaced

/-! ## Line ends that make no difference -/

/-- The character is layout or ends an item. -/
def isEdge (c : Char) : Bool :=
  isLayout c || c == ';'

/-- The text without its comments, but with the ends of their lines.  The first argument tells
whether the text begins within a comment. -/
def plain : Bool → List Char → List Char
  | _, [] => []
  | true, c :: cs => if c = '\n' then c :: plain false cs else plain true cs
  | false, c :: cs => if c = '%' then plain true cs else c :: plain false cs

/-- Next to the end of each comment's line, there is layout, a semicolon or an end of the text:
either in front of the comment or behind the line, where further comments do not count.  The first
argument tells whether the text stands behind such a place, the second one whether it begins within
a comment. -/
def apart : Bool → Bool → List Char → Bool
  | _, _, [] => true
  | edge, true, c :: cs =>
    if c = '\n' then (edge || (bare false cs).head?.all isEdge) && apart true false cs
    else apart edge true cs
  | edge, false, c :: cs =>
    if c = '%' then apart edge true cs else apart (isEdge c) false cs

variable {settings : Settings}

/-- A line end makes no difference at the ends of an item and next to layout. -/
lemma interchangeable_lineFeed {before after : List Char}
    (h : before.getLast?.all isLayout = true ∨ after.head?.all isLayout = true) :
    Interchangeable settings (before ++ after) (before ++ ['\n'] ++ after) := by
  have hblank : isBlank '\n' = true := by decide
  have hfeed : isLayout '\n' = true := rfl
  refine Spaced.interchangeable ?_
  -- the line end joins layout on either side of it, or it is trimmed off
  rcases h with h | h
  · induction before using List.reverseRecOn with
    | nil =>
      rw [List.nil_append, List.nil_append, List.singleton_append, trim_cons_blank _ hblank]
      exact .refl _
    | append_singleton before c _ =>
      have hc : isLayout c = true := by simpa using h
      rw [List.append_assoc before [c] ['\n']]
      refine (Spaced.append (.append (.refl before) ?_) (.refl after)).trim
      exact .of_layout (by simp) (by simp) (by simp [hc]) (by simp [hc, hfeed])
  · cases after with
    | nil =>
      rw [List.append_nil, List.append_nil, trim_append_blank _ hblank]
      exact .refl _
    | cons c after =>
      have hc : isLayout c = true := by simpa using h
      rw [List.append_assoc before, ← List.singleton_append (l := after),
        ← List.append_assoc ['\n']]
      refine (Spaced.append (.refl before) (.append ?_ (.refl after))).trim
      exact .of_layout (by simp) (by simp) (by simp [hc]) (by simp [hc, hfeed])

/-- A text without comments in which a line end is put next to layout, a semicolon or an end of the
text comes to the same. -/
lemma outcomeOf_lineFeed {before after : List Char}
    (h : before.getLast?.all isEdge = true ∨ after.head?.all isEdge = true) :
    outcomeOf settings (before ++ after) = outcomeOf settings (before ++ ['\n'] ++ after) := by
  refine outcomeOf_insert (by decide) (interchangeable_lineFeed ?_)
  -- an edge is layout of the item itself, or the semicolon at which the item is cut off
  refine h.imp (fun hbefore => ?_) fun hafter => ?_
  · induction before using List.reverseRecOn with
    | nil => rfl
    | append_singleton before c _ =>
      have hedge : isEdge c = true := by simpa using hbefore
      rw [isEdge, Bool.or_eq_true, beq_iff_eq] at hedge
      rw [itemBefore]
      rcases hedge with hlayout | rfl
      · have hc : (c != ';') = true := bne_of_class rfl c hlayout
        rw [List.rtakeWhile_concat_pos (· != ';') _ _ hc]
        simpa using hlayout
      · rw [List.rtakeWhile_concat_neg _ _ _ (by decide)]
        rfl
  · cases after with
    | nil => rfl
    | cons c after =>
      have hedge : isEdge c = true := by simpa using hafter
      rw [isEdge, Bool.or_eq_true, beq_iff_eq] at hedge
      rw [itemAfter]
      rcases hedge with hlayout | rfl
      · have hc : (c != ';') = true := bne_of_class rfl c hlayout
        rw [List.takeWhile_cons_of_pos (p := (· != ';')) hc]
        simpa using hlayout
      · rw [List.takeWhile_cons_of_neg (by decide)]
        rfl

/-- Where the line ends of comments stand apart, they make no difference.  The induction is on the
text that is left, and what precedes it is bare already. -/
lemma outcomeOf_plain (before : List Char) (comment : Bool) (cs : List Char)
    (h : apart (before.getLast?.all isEdge) comment cs = true) :
    outcomeOf settings (before ++ bare comment cs) =
      outcomeOf settings (before ++ plain comment cs) := by
  induction cs generalizing before comment with
  | nil => cases comment <;> rfl
  | cons c cs ih =>
    cases comment with
    | true =>
      rw [bare, plain]
      rw [apart] at h
      -- of a comment, only the line feed that ends it is left
      by_cases hc : c = '\n'
      · subst hc
        rw [if_pos rfl, Bool.and_eq_true, Bool.or_eq_true] at h
        have hedge : (before ++ ['\n']).getLast?.all isEdge = true := by
          rw [List.getLast?_concat]
          rfl
        have hrest := ih (before ++ ['\n']) false (by rw [hedge]; exact h.2)
        rw [if_pos rfl]
        show outcomeOf settings (before ++ bare false cs) = _
        rw [outcomeOf_lineFeed h.1, hrest, List.append_assoc, List.singleton_append]
      · rw [if_neg hc] at h
        rw [if_neg hc, bne_iff_ne.2 hc]
        exact ih before true h
    | false =>
      rw [bare, plain]
      rw [apart] at h
      by_cases hc : c = '%'
      · rw [if_pos hc] at h
        rw [if_pos hc, if_pos hc]
        exact ih before true h
      · rw [if_neg hc] at h
        rw [if_neg hc, if_neg hc]
        have hrest := ih (before ++ [c]) false (by simpa using h)
        rwa [List.append_assoc, List.append_assoc] at hrest

/-- A text with the ends of the comments' lines has no comments. -/
lemma percent_notMem_plain (comment : Bool) (cs : List Char) : '%' ∉ plain comment cs := by
  induction cs generalizing comment with
  | nil => cases comment <;> exact List.not_mem_nil
  | cons c cs ih =>
    cases comment with
    | true =>
      rw [plain]
      split
      next hc =>
        subst hc
        exact List.not_mem_cons_of_ne_of_not_mem (by decide) (ih false)
      · exact ih true
    | false =>
      rw [plain]
      split
      · exact ih true
      next hc => exact List.not_mem_cons_of_ne_of_not_mem (Ne.symm hc) (ih false)

end FlatZinc

namespace Reader

open Text FlatZinc

/-- **Comments.** A text is decoded like the text without its comments and without the ends of their
lines: to the same instance, or with an error of the same kind.  If the ends of the lines stand
apart, it is also decoded like the text in which they are kept, so that comments are layout there.
-/
theorem next_of_comments (settings : FlatZinc.Settings) (text : List Char)
    (seekable seekable' : Bool) (chunk chunk' : ℕ) :
    let decoded cs :=
      (next ⟨.flatZinc settings, {}⟩ (.ofBytes (utf8 cs) seekable chunk)).1.mapError ReadError.kind
    let decoded' cs :=
      (next ⟨.flatZinc settings, {}⟩ (.ofBytes (utf8 cs) seekable' chunk')).1.mapError
        ReadError.kind
    decoded text = decoded' (bare false text) ∧
      (apart true false text = true → decoded text = decoded' (plain false text)) := by
  intro decoded decoded'
  have hbare : bare false (bare false text) = bare false text :=
    bare_of_notMem (percent_notMem_bare false text)
  have hplain : bare false (plain false text) = plain false text :=
    bare_of_notMem (percent_notMem_plain false text)
  refine ⟨?_, fun hapart => ?_⟩
  · show Except.mapError _ _ = Except.mapError _ _
    rw [next_bare, next_bare, hbare]
  · show Except.mapError _ _ = Except.mapError _ _
    rw [next_bare, next_bare, hplain]
    exact congrArg _ (outcomeOf_plain [] false text hapart)

/-- A model with comments behind semicolons, behind blanks and in lines of their own is an instance,
and so is what is left of it, with the ends of the lines and without them. -/
theorem next_of_comments_apart :
    let text := "% a model\nvar 0..5: x :: output_var;% the only one\nconstraint int_lin_le( % <=\n" ++
      "[2], % once\n% more\n [x], 7);\n%\nsolve maximize %x\nx; % done"
    let decoded cs :=
      (next ⟨.flatZinc {}, {}⟩ (.ofBytes (utf8 cs) true 64)).1.mapError ReadError.kind
    apart true false text.toList = true ∧ (decoded text.toList).isOk = true ∧
      plain false text.toList = ("\nvar 0..5: x :: output_var;\nconstraint int_lin_le( \n" ++
        "[2], \n\n [x], 7);\n\nsolve maximize \nx; ").toList ∧
      decoded text.toList = decoded (bare false text.toList) ∧
      decoded text.toList = decoded (plain false text.toList) := by
  intro text decoded
  have hapart : apart true false text.toList = true := by decide +kernel
  have hok : (decoded text.toList).isOk = true := by decide +kernel
  have hcomments := next_of_comments {} text.toList true true 64 64
  exact ⟨hapart, hok, by decide +kernel, hcomments.1, hcomments.2 hapart⟩

/-- A comment is not always layout: what it separates is put together.  The goal of the model is
read as an unknown item, although the text without the comment has one. -/
theorem next_ne_of_comment :
    let text := "var bool: b;\nsolve% goal\nsatisfy;\n"
    let decoded cs :=
      (next ⟨.flatZinc {}, {}⟩ (.ofBytes (utf8 cs) true 64)).1.mapError ReadError.kind
    '"' ∉ text.toList ∧ plain false text.toList = "var bool: b;\nsolve\nsatisfy;\n".toList ∧
      decoded text.toList ≠ decoded (plain false text.toList) := by
  intro text decoded
  refine ⟨by decide +kernel, by decide +kernel, fun h => ?_⟩
  have hrefused : (decoded text.toList).isOk = false := by decide +kernel
  have haccepted : (decoded (plain false text.toList)).isOk = true := by decide +kernel
  rw [h, haccepted] at hrefused
  cases hrefused

end Reader

end LinearInterchange
