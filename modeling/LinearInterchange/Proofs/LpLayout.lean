import LinearInterchange.Proofs.LpPlaces
import LinearInterchange.Proofs.ParserRelations
import LinearInterchange.Proofs.TextStreams

/-!
# The layout of LP texts

What counts of a line is what stands before a backslash (`Row.ofLine_comment`), without white space
at its ends (`Row.ofLine_append_blank`), and nothing counts of a blank line (`Row.ofLine_of_blank`).
So a text is a list of rows (`Lp.rows`), which are keywords and the texts that stand beside and
below them.  In an objective and among constraints not even these texts count, only the tokens of
all of them in order, since the reader keeps them until the section ends.  So a line can be broken
there at any blank between tokens (`tokens?_break`).

Two texts are laid out differently (`Lp.Relaid`) if they differ in nothing else.  They are decoded
to the same instance or refused with errors of the same kind.  The message of an error and the place
where it is found may differ, since they tell of the lines as they stand.
-/

namespace LinearInterchange

namespace Lp

open Text Table

/-! ## Rows -/

/-- A row of a text: a keyword that begins a section, or other text. -/
inductive Row where
  | header (part : Section) (direction : Option Direction)
  | plain (text : List Char)
  deriving DecidableEq

namespace Row

/-- Other text is a row unless there is none. -/
def ofText (cs : List Char) : List Row :=
  if cs.isEmpty then [] else [.plain cs]

/-- The rows of a line: none if it is blank, and two if text follows a keyword. -/
def ofLine (line : List Char) : List Row :=
  let cs := trim (line.takeWhile (· != '\\'))
  match Section.ofLine? cs with
  | .ok (some (part, direction, rest)) => .header part direction :: ofText (trim rest)
  | _ => ofText cs

/-- A blank line has no row. -/
lemma ofLine_of_blank {line : List Char} (h : line.all isBlank = true) : ofLine line = [] := by
  have hnil : trim (line.takeWhile (· != '\\')) = [] :=
    trim_eq_nil_iff.2 <| List.all_eq_true.2 fun c hc =>
      List.all_eq_true.1 h c ((List.takeWhile_prefix _).subset hc)
  rw [ofLine, hnil]
  rfl

/-- What counts of a line stands in front of its first backslash. -/
lemma ofLine_comment (line comment : List Char) :
    ofLine (line ++ '\\' :: comment) = ofLine line := by
  have hcut : (line ++ '\\' :: comment).takeWhile (· != '\\') = line.takeWhile (· != '\\') := by
    rw [List.takeWhile_append, List.takeWhile_cons_of_neg (by decide), List.append_nil]
    split
    next hall => exact ((List.takeWhile_prefix _).eq_of_length hall).symm
    next => rfl
  rw [ofLine, hcut, ofLine]

/-- White space at the end of a line does not count. -/
lemma ofLine_append_blank (line : List Char) {c : Char} (hc : isBlank c = true) :
    ofLine (line ++ [c]) = ofLine line := by
  have hcut : trim ((line ++ [c]).takeWhile (· != '\\')) =
      trim (line.takeWhile (· != '\\')) := by
    rw [List.takeWhile_append]
    split
    next hall =>
      have hlast : [c].takeWhile (· != '\\') = [c] :=
        List.takeWhile_cons_of_pos (bne_of_class rfl c hc)
      rw [(List.takeWhile_prefix _).eq_of_length hall, hlast, trim_append_blank line hc]
    next => rfl
  rw [ofLine, hcut, ofLine]

end Row

/-- The rows of a text. -/
def rows (text : List Char) : List Row :=
  (lines text).flatMap Row.ofLine

/-- The tokens of several texts in order, if each of the texts is made of tokens. -/
def tokens? : List (List Char) → Option (List Token)
  | [] => some []
  | cs :: texts => (Token.scan cs).toOption.bind fun ts => (tokens? texts).map (ts ++ ·)

/-- The sections of which only the tokens count. -/
def Section.Running (part : Section) : Prop :=
  part = .objective ∨ part = .constraints

/-- The same rows from a given section on, up to the layout: in an objective and among constraints,
texts may stand for others with the same tokens in order.  What follows the end is of no account. -/
inductive Relaid : Section → List Row → List Row → Prop
  | nil (part : Section) : Relaid part [] []
  | finished (part : Section) (direction : Option Direction) (rs rs' : List Row) :
    Relaid part (.header .finished direction :: rs) (.header .finished direction :: rs')
  | header (part next : Section) (direction : Option Direction) {rs rs' : List Row} :
    Relaid next rs rs' →
      Relaid part (.header next direction :: rs) (.header next direction :: rs')
  | plain (part : Section) (text : List Char) {rs rs' : List Row} :
    Relaid part rs rs' → Relaid part (.plain text :: rs) (.plain text :: rs')
  | broken {part : Section} (texts texts' : List (List Char)) {rs rs' : List Row} :
    part.Running → tokens? texts = tokens? texts' → Relaid part rs rs' →
      Relaid part (texts.map .plain ++ rs) (texts'.map .plain ++ rs')

/-! ## Breaks between tokens -/

namespace Token
open Parser

/-- The character is no blank and no tab. -/
def isSolid (c : Char) : Bool :=
  !isSpace c

lemma isSolid_of_isBlank {c : Char} (h : isBlank c = false) : isSolid c = true := by
  by_contra hc
  have hspace : isSpace c = true := by simpa [isSolid] using hc
  rw [isSpace, Bool.or_eq_true, beq_iff_eq, beq_iff_eq] at hspace
  rcases hspace with rfl | rfl <;> exact absurd h (by decide)

/-- One of several words is read from both texts. -/
lemma oneOf_likens {R : List Char → List Char → Prop} (h : Agree isSolid R) {words : List String}
    (hwords : (words.all fun w => w.toList.all isSolid) = true) :
    Likens R R Eq (oneOf words) (oneOf words) := by
  induction words with
  | nil => exact .failure
  | cons w words ih =>
    rw [List.all_cons, Bool.and_eq_true] at hwords
    exact (h.literal hwords.1).orElse (ih hwords.2)

section

variable {c : Char} (hc : isSpace c = true) (tail : List Char)

include hc

/-- A number does not reach over a blank or a tab. -/
lemma decimalToken_likens :
    Likens (Before [] (c :: tail)) (Before [] (c :: tail)) Eq decimalToken decimalToken := by
  have h : Agree isSolid (Before [] (c :: tail)) :=
    agree_before (stops_nil _) (stops_cons (by simp [isSolid, hc]))
  have hdigit : Agree Char.isDigit (Before [] (c :: tail)) :=
    h.mono fun _ hd => isSolid_of_isBlank (isBlank_of_isDigit hd)
  have hpower : Agree (fun c => c == 'e' || c == 'E') (Before [] (c :: tail)) :=
    h.mono fun d hd => by
      rw [Bool.or_eq_true, beq_iff_eq, beq_iff_eq] at hd
      rcases hd with rfl | rfl <;> rfl
  have hsign := h.sign rfl rfl
  have hdigits := hdigit.run1
  refine Likens.accepted (V := Eq) (hsign.andThen fun _ => ?_)
  refine .andThen (S := Before [] (c :: tail)) (.orElse (hdigits.andThen fun _ => ?_) ?_)
    fun _ => ?_
  · refine Likens.andThen (Likens.optional? ?_) fun _ => .pure rfl
    exact (h.char rfl).andThen fun _ => hdigit.run
  · exact (h.char rfl).andThen fun _ => hdigits.andThen fun _ => .pure rfl
  · refine Likens.andThen (Likens.optional? ?_) fun _ => .pure rfl
    exact hpower.satisfy.andThen fun _ => hsign.andThen fun _ => hdigits

/-- A token does not reach over a blank or a tab. -/
lemma next_likens : Likens (Before [] (c :: tail)) (Before [] (c :: tail)) Eq next next := by
  have h : Agree isSolid (Before [] (c :: tail)) :=
    agree_before (stops_nil _) (stops_cons (by simp [isSolid, hc]))
  have hstart : Agree isIdentStart (Before [] (c :: tail)) :=
    h.mono fun _ hd => isSolid_of_isBlank (isBlank_of_isIdentStart hd)
  have hpart : Agree isIdentPart (Before [] (c :: tail)) :=
    h.mono fun _ hd => isSolid_of_isBlank (isBlank_of_isIdentPart hd)
  refine .orElse (Likens.andThen (oneOf_likens h (by decide)) fun _ => .pure rfl) ?_
  refine .orElse (Likens.andThen (oneOf_likens h (by decide)) fun _ => .pure rfl) ?_
  refine .orElse ((h.char rfl).andThen fun _ => .pure rfl) ?_
  refine .orElse ((h.char rfl).andThen fun _ => .pure rfl) ?_
  refine .orElse ((h.char rfl).andThen fun _ => .pure rfl) ?_
  refine .orElse ((h.char rfl).andThen fun _ => .pure rfl) ?_
  refine .orElse ((decimalToken_likens hc tail).andThen fun _ => .pure rfl) ?_
  exact hstart.run1.andThen fun _ => hpart.run.andThen fun _ => .pure rfl

end

/-- Blanks and tabs in front do not matter. -/
lemma scan_dropWhile (cs : List Char) : scan (cs.dropWhile isSpace) = scan cs := by
  have hbody : (cs.dropWhile isSpace).dropWhile isSpace = cs.dropWhile isSpace :=
    List.dropWhile_idempotent _ _
  rw [scan, scan.eq_def cs]
  simp only [hbody]

/-- Where a token begins, it is read, and then the text behind it. -/
lemma scan_of_ne_nil {cs body : List Char} (hbody : cs.dropWhile isSpace = body) (hne : body ≠ []) :
    scan cs =
      match next body with
      | none => .error body
      | some (t, rest) =>
        if rest.length < body.length then (scan rest).map (t :: ·) else .error body := by
  rw [scan]
  simp only [hbody, if_neg hne]
  rfl

/-- The tokens of two texts with a blank or a tab between them are those of the one and then those
of the other one. -/
lemma scan_append {c : Char} (hc : isSpace c = true) (a b : List Char) :
    (scan (a ++ c :: b)).toOption =
      (scan a).toOption.bind fun ts => (scan b).toOption.map fun us => ts ++ us := by
  have hbefore : ∀ body : List Char, Before [] (c :: b) body (body ++ c :: b) := fun body =>
    ⟨body, (List.append_nil _).symm, rfl⟩
  have hdrop : ∀ a : List Char, a.dropWhile isSpace ≠ [] →
      (a ++ c :: b).dropWhile isSpace = a.dropWhile isSpace ++ c :: b := fun a hne => by
    rw [List.dropWhile_append, if_neg (by rwa [List.isEmpty_iff])]
  have hne : ∀ body : List Char, body ++ c :: b ≠ [] := fun body =>
    List.append_ne_nil_of_right_ne_nil _ (List.cons_ne_nil _ _)
  -- the first token of `a` is also that of the longer text, since no token reaches over the blank
  fun_induction scan a with
  | case1 a body hbody =>
    have hblank : ∀ d ∈ a, isSpace d = true := List.dropWhile_eq_nil_iff.1 hbody
    have hdrop : (a ++ c :: b).dropWhile isSpace = b.dropWhile isSpace := by
      rw [List.dropWhile_append_of_pos hblank, List.dropWhile_cons_of_pos hc]
    rw [← scan_dropWhile, hdrop, scan_dropWhile]
    cases scan b <;> rfl
  | case2 a body hbody hnext =>
    rw [scan_of_ne_nil (hdrop a hbody) (hne _), (next_likens hc b).eq_none (hbefore body) hnext]
    rfl
  | case3 a body hbody t rest hnext hlt ih =>
    obtain ⟨t', rest', hnext', rfl, w, rfl, rfl⟩ :=
      (next_likens hc b).exists_some (hbefore body) hnext
    rw [List.append_nil] at hlt ih ⊢
    have hlt' : (w ++ c :: b).length < (a.dropWhile isSpace ++ c :: b).length := by
      rw [List.length_append, List.length_append]
      exact Nat.add_lt_add_right hlt _
    rw [scan_of_ne_nil (hdrop a hbody) (hne _), hnext']
    simp only [if_pos hlt']
    have hmap : ∀ x : Except (List Char) (List Token),
        (x.map (t :: ·)).toOption = x.toOption.map (t :: ·) := fun x => by cases x <;> rfl
    rw [hmap, hmap, ih]
    cases (scan w).toOption <;> cases (scan b).toOption <;> rfl
  | case4 a body hbody t rest hnext hle =>
    obtain ⟨t', rest', hnext', rfl, w, rfl, rfl⟩ :=
      (next_likens hc b).exists_some (hbefore body) hnext
    rw [List.append_nil] at hle
    have hle' : ¬(w ++ c :: b).length < (a.dropWhile isSpace ++ c :: b).length := by
      rw [List.length_append, List.length_append]
      exact fun hlt => hle (Nat.lt_of_add_lt_add_right hlt)
    rw [scan_of_ne_nil (hdrop a hbody) (hne _), hnext']
    simp only [if_neg hle']
    rfl

end Token

/-- The tokens of texts and then of others. -/
lemma tokens?_append (texts texts' : List (List Char)) :
    tokens? (texts ++ texts') =
      (tokens? texts).bind fun ts => (tokens? texts').map (ts ++ ·) := by
  induction texts with
  | nil => cases h : tokens? texts' <;> simp [tokens?, h]
  | cons cs texts ih =>
    rw [List.cons_append, tokens?, tokens?, ih]
    cases (Token.scan cs).toOption <;> cases tokens? texts <;> cases tokens? texts' <;>
      simp

/-- A line can be broken at a blank or a tab between its tokens, and lines can be joined there. -/
lemma tokens?_break {c : Char} (hc : Parser.isSpace c = true) (before after : List (List Char))
    (a b : List Char) :
    tokens? (before ++ (a ++ c :: b) :: after) = tokens? (before ++ a :: b :: after) := by
  rw [tokens?_append, tokens?_append, tokens?, tokens?, tokens?, Token.scan_append hc]
  cases (Token.scan a).toOption <;> cases (Token.scan b).toOption <;> cases tokens? after <;>
    simp

/-! ## Reading rows -/

/-- The place that all places are taken for where they do not matter. -/
def nowhere : Position := ⟨0, 0⟩

/-- Reads rows one after another, up to the end that they announce.  Of an error only the kind
remains. -/
def overRows : Model → List Row → Except ReadError.Kind Model
  | m, [] => .ok m
  | m, .header part direction :: rs => do
    let m ← (m.enter nowhere part direction).mapError ReadError.kind
    if part = .finished then return m else overRows m rs
  | m, .plain cs :: rs => do
    let m ← (m.addTokens nowhere cs).mapError ReadError.kind
    overRows m rs

namespace Model

variable {m m' : Model} {pos : Position}

/-- A keyword leads to the section that it begins. -/
lemma enter_part {part : Section} {direction : Option Direction}
    (h : m.enter pos part direction = .ok m') : m'.part = part := by
  obtain ⟨m₁, -, h⟩ := bind_eq_ok.1 h
  split at h
  · split at h <;> cases h
    rfl
  · cases h
    rfl

lemma changeColumn_part {name : List Char} {f : Column → Column}
    (h : m.changeColumn pos name f = .ok m') : m'.part = m.part := by
  obtain ⟨cols, -, hcols⟩ := bind_eq_ok.1 h
  cases hcols
  rfl

/-- Text that is no keyword does not leave the section. -/
lemma addTokens_part {cs : List Char} (h : m.addTokens pos cs = .ok m') : m'.part = m.part := by
  have hname : ∀ (m₁ : Model) (t : Token), m₁.part = m.part →
      Settles (fun _ => True) (fun m₂ => m₂.part = m.part) (addName pos m₁ t) := by
    intro m₁ t hm₁
    cases t with
    | ident name => exact Settles.of_forall_ok fun m₂ h₂ => (changeColumn_part h₂).trans hm₁
    | _ => exact True.intro
  have hnames : ∀ ts : List Token, Settles (fun _ => True) (fun m₁ => m₁.part = m.part)
      (ts.foldlM (addName pos) m) := fun ts =>
    Settles.foldlM (Q := fun m₁ => m₁.part = m.part) rfl fun t _ m₁ hm₁ => hname m₁ t hm₁
  unfold addTokens at h
  split at h
  · cases h
    rfl
  · split at h
    · cases h
    · split at h
      · cases h
      · cases h
      · cases h
        rfl
      · cases h
        rfl
      · obtain ⟨b, -, h⟩ := bind_eq_ok.1 h
        exact changeColumn_part h
      · exact (hnames _).of_ok h
      · exact (hnames _).of_ok h

/-- Tokens that are kept. -/
def keep (m : Model) (ts : List Token) : Model :=
  { m with pending := m.pending ++ ts.map fun t => (t, nowhere) }

lemma keep_keep (m : Model) (ts us : List Token) : (m.keep ts).keep us = m.keep (ts ++ us) := by
  simp [keep]

/-- In a section of which only the tokens count, text is kept as its tokens. -/
lemma addTokens_of_running (h : m.part.Running) (cs : List Char) :
    (m.addTokens nowhere cs).mapError ReadError.kind =
      (Token.scan cs).toOption.elim (.error .malformed) fun ts => .ok (m.keep ts) := by
  cases cs with
  | nil =>
    rw [Token.scan]
    show Except.ok m = Except.ok (m.keep [])
    rw [keep, List.map_nil, List.append_nil]
  | cons c cs =>
    rw [addTokens, if_neg (by simp)]
    cases Token.scan (c :: cs) with
    | error text => rfl
    | ok ts =>
      obtain ⟨part, direction, objective, constrs, cols, pending⟩ := m
      rcases h with h | h <;> cases h <;> rfl

end Model

variable {m : Model}

/-- In a section of which only the tokens count, texts are kept as the tokens of all of them. -/
lemma overRows_plain (h : m.part.Running) (texts : List (List Char)) (rs : List Row) :
    overRows m (texts.map .plain ++ rs) =
      (tokens? texts).elim (.error .malformed) fun ts => overRows (m.keep ts) rs := by
  induction texts generalizing m with
  | nil =>
    show overRows m rs = overRows (m.keep []) rs
    rw [Model.keep, List.map_nil, List.append_nil]
  | cons cs texts ih =>
    rw [List.map_cons, List.cons_append, overRows, m.addTokens_of_running h, tokens?]
    cases (Token.scan cs).toOption with
    | none => rfl
    | some ts =>
      refine (ih (m := m.keep ts) h).trans ?_
      cases tokens? texts with
      | none => rfl
      | some us =>
        show overRows ((m.keep ts).keep us) rs = overRows (m.keep (ts ++ us)) rs
        rw [Model.keep_keep]

/-- Rows that are laid out differently are read alike. -/
lemma overRows_of_relaid {part : Section} {rs rs' : List Row} (h : Relaid part rs rs')
    (hm : m.part = part) : overRows m rs = overRows m rs' := by
  induction h generalizing m with
  | nil part => rfl
  | finished part direction rs rs' =>
    rw [overRows, overRows]
    rfl
  | header part next direction _ ih =>
    rw [overRows, overRows]
    cases henter : m.enter nowhere next direction with
    | error e => rfl
    | ok m' =>
      show (if next = .finished then _ else _) = if next = .finished then _ else _
      rw [ih (Model.enter_part henter)]
  | plain part text _ ih =>
    rw [overRows, overRows]
    cases hadd : m.addTokens nowhere text with
    | error e => rfl
    | ok m' => exact ih ((Model.addTokens_part hadd).trans hm)
  | broken texts texts' hrunning htokens _ ih =>
    rw [overRows_plain (hm ▸ hrunning), overRows_plain (hm ▸ hrunning), htokens]
    cases tokens? texts' with
    | none => rfl
    | some ts => exact ih (m := m.keep ts) hm

/-! ## Reading lines -/

/-- What the reader does with a line, wherever it stands. -/
def kindStep (m : Model) (line : List Char) :
    Except ReadError.Kind (InputStream.LineStep Model) :=
  (step m nowhere (.ofList line)).mapError ReadError.kind

/-- Text that is no keyword is read as a row. -/
lemma overRows_ofText (m : Model) (cs : List Char) (rs : List Row) :
    overRows m (Row.ofText cs ++ rs) =
      (m.addTokens nowhere cs).mapError ReadError.kind >>= fun m => overRows m rs := by
  cases cs with
  | nil => rfl
  | cons c cs => rfl

/-- Reads on with further lines, unless the end was announced. -/
def goOn (ls : List (List Char)) (m : Model) : Except ReadError.Kind Model :=
  if m.part = .finished then .ok m else InputStream.overLines kindStep m ls

/-- A line is read, and then the ones after it. -/
lemma overLines_cons (m : Model) (l : List Char) (ls : List (List Char)) :
    InputStream.overLines kindStep m (l :: ls) =
      (m.addText nowhere (.ofList l)).mapError ReadError.kind >>= goOn ls := by
  rw [InputStream.overLines, kindStep, step]
  cases m.addText nowhere (.ofList l) with
  | error e => rfl
  | ok m' =>
    by_cases hend : m'.part = .finished
    · simp [Except.map, Except.mapError, bind, Except.bind, goOn, hend]
    · simp [Except.map, Except.mapError, bind, Except.bind, goOn, hend]

/-- Lines are read as their rows. -/
lemma overLines_eq_overRows (hm : m.part ≠ .finished) (ls : List (List Char)) :
    InputStream.overLines kindStep m ls = overRows m (ls.flatMap Row.ofLine) := by
  induction ls generalizing m with
  | nil => rfl
  | cons l ls ih =>
    have htext : ∀ (m₁ : Model) (cs : List Char), m₁.part ≠ .finished →
        (m₁.addTokens nowhere cs).mapError ReadError.kind >>= goOn ls =
          overRows m₁ (Row.ofText cs ++ ls.flatMap Row.ofLine) := by
      intro m₁ cs hm₁
      rw [overRows_ofText]
      cases hadd : m₁.addTokens nowhere cs with
      | error e => rfl
      | ok m' =>
        have hm' : m'.part ≠ .finished := Model.addTokens_part hadd ▸ hm₁
        show goOn ls m' = overRows m' _
        rw [goOn, if_neg hm', ih hm']
    obtain ⟨r, hr, -⟩ := (ofLine?_settles (trim (l.takeWhile (· != '\\')))).exists_ok
    rw [overLines_cons, List.flatMap_cons, Model.addText, Row.ofLine, String.toList_ofList]
    simp only [hr]
    -- a line is text, or a keyword with the text behind it, which then makes two rows
    cases r with
    | none => exact htext m _ hm
    | some r =>
      obtain ⟨part, direction, rest⟩ := r
      show (m.enter nowhere part direction >>= fun m₁ => if part = .finished then pure m₁
        else m₁.addTokens nowhere (trim rest)).mapError ReadError.kind >>= goOn ls = _
      rw [List.cons_append, overRows]
      cases henter : m.enter nowhere part direction with
      | error e => rfl
      | ok m₁ =>
        have hpart : m₁.part = part := Model.enter_part henter
        show (if part = .finished then pure m₁ else m₁.addTokens nowhere (trim rest)).mapError
          ReadError.kind >>= goOn ls = if part = .finished then _ else _
        by_cases hend : part = .finished
        · rw [if_pos hend, if_pos hend]
          show goOn ls m₁ = _
          rw [goOn, if_pos (hpart.trans hend)]
          rfl
        · rw [if_neg hend, if_neg hend]
          exact htext m₁ _ (hpart ▸ hend)

/-! ## Texts -/

/-- What becomes of the model after the last row, wherever that stands. -/
def kindFinish (settings : Table.Settings) (m : Model) : Except ReadError.Kind Instance :=
  (finish settings m nowhere).mapError ReadError.kind

lemma kind_moved (g : Position → Position) (e : ReadError) : (e.moved g).kind = e.kind := by
  cases e <;> rfl

/-- Of what is moved, the kind of an error is the same. -/
lemma mapError_kind_moved {α β : Type} (g : Position → Position) (f : α → β)
    (x : Except ReadError α) :
    (moved g f x).mapError ReadError.kind = (x.mapError ReadError.kind).map f := by
  cases x with
  | error e => exact congrArg Except.error (kind_moved g e)
  | ok a => rfl

/-- A line is read alike wherever it and the lines before it stand. -/
lemma step_nowhere (m : Model) (pos : Position) (line : List Char) :
    ((step m pos (.ofList line)).mapError ReadError.kind).map
        (InputStream.LineStep.map (Model.moved fun _ => nowhere)) =
      kindStep (m.moved fun _ => nowhere) line := by
  have hmoved := Model.addText_moved (g := fun _ => nowhere) m pos (.ofList line)
  rw [kindStep, step, step, hmoved]
  cases m.addText pos (.ofList line) with
  | error e => exact congrArg Except.error (kind_moved _ e).symm
  | ok m' =>
    show Except.ok (InputStream.LineStep.map _ (if m'.part = .finished then _ else _)) =
      Except.ok (if m'.part = .finished then _ else _)
    split <;> rfl

/-- The instance is built alike wherever the lines stand. -/
lemma finish_nowhere (settings : Table.Settings) (m : Model) (last : Position) :
    (finish settings m last).mapError ReadError.kind =
      kindFinish settings (m.moved fun _ => nowhere) := by
  have hbuild := build_moved (g := fun _ => nowhere) settings none m.cols m.constrs m.direction
    m.objective rfl
  unfold kindFinish finish
  show _ = (if m.part = .finished then
    build settings none (m.cols.moved fun _ => nowhere) m.constrs m.direction m.objective
    else _).mapError _
  split
  · rw [hbuild, mapError_kind_moved]
    cases (build settings none m.cols m.constrs m.direction m.objective).mapError
      ReadError.kind <;> rfl
  · rfl

/-- What a text is decoded to is a matter of its rows, up to the places and messages of errors. -/
lemma decode_rows (settings : Table.Settings) (text : List Char) {input : InputStream}
    (h : input.source.rest = utf8 text) :
    (decode settings input).1.mapError ReadError.kind =
      overRows {} (rows text) >>= kindFinish settings := by
  have hlines : ByteSource.cutLines input.source.rest = (lines text).map utf8 := by
    rw [h, cutLines_utf8]
  have hfold := InputStream.foldLines_lines step_nowhere {} input.position hlines
  rw [overLines_eq_overRows (by decide)] at hfold
  rw [decode_eq, InputStream.readThrough, rows]
  show _ = overRows (Model.moved (fun _ => nowhere) {}) _ >>= _
  rw [← hfold]
  obtain ⟨outcome, input'⟩ := input.foldLines step {} input.position
  cases outcome with
  | error e => rfl
  | ok r => exact finish_nowhere settings r.1 r.2

end Lp

namespace Reader

open Text Lp

/-- What a new reader makes of a text is a matter of its rows, up to the places and messages of
errors. -/
lemma next_rows (settings : Table.Settings) (text : String) (seekable : Bool) (chunk : ℕ) :
    (next ⟨.lp settings, {}⟩ (.ofBytes (bytesOf text) seekable chunk)).1.mapError ReadError.kind =
      (overRows {} (rows text.toList) >>= kindFinish settings).map some := by
  have hrest : (InputStream.ofBytes (bytesOf text) seekable chunk).source.rest =
      utf8 text.toList := bytesOf_eq_utf8 text
  rw [next_fresh, ← decode_rows settings text.toList hrest, ← mapError_map]
  exact congrArg (Except.mapError _) (InputFormat.fst_single _)

/-- **The layout of objectives and constraints does not matter.**  If two texts have the same rows
up to the layout, then a reader of the LP format decodes both to the same instance, or refuses both
with errors of the same kind: blank lines and comments may be inserted, and the tokens of an
objective or of constraints may stand on other lines with other blanks between them, as long as no
line begins with the keyword of a section that did not begin there.  It does not matter how the
streams hold the texts. -/
theorem next_of_relaid (settings : Table.Settings) (text text' : String)
    (seekable seekable' : Bool) (chunk chunk' : ℕ)
    (h : Relaid .preamble (rows text.toList) (rows text'.toList)) :
    (next ⟨.lp settings, {}⟩ (.ofBytes (bytesOf text) seekable chunk)).1.mapError ReadError.kind =
      (next ⟨.lp settings, {}⟩ (.ofBytes (bytesOf text') seekable' chunk')).1.mapError
        ReadError.kind := by
  rw [next_rows, next_rows, overRows_of_relaid h rfl]

/-- A plan with its statements on lines of their own, and the same plan with other line breaks, with
comments, and with blank lines. -/
theorem next_of_relaid_plan :
    let text := "Minimize cost: 2 x + 3 y\nSubject To\n c1: x + y >= 2\n c2: x - y <= 1\n" ++
      "Bounds\n x <= 4\n y <= 4\nGeneral\n x y\nEnd\n"
    let text' := "\\ a plan\nMinimize\ncost : 2\n x + \\ in euros\n\n3 y\nSubject To c1: x\n" ++
      "+y >= 2 c2: x-y\t<=\n1\nBounds \\ of both\n\n x <= 4\n y <= 4\nGeneral\nx y\nEnd of plan"
    Relaid .preamble (rows text.toList) (rows text'.toList) ∧
      (next ⟨.lp {}, {}⟩ (.ofBytes (bytesOf text) true 64)).1.isOk = true ∧
      (next ⟨.lp {}, {}⟩ (.ofBytes (bytesOf text) true 64)).1.mapError ReadError.kind =
        (next ⟨.lp {}, {}⟩ (.ofBytes (bytesOf text') false 1)).1.mapError ReadError.kind := by
  intro text text'
  have hrows : rows text.toList = [.header .objective (some .minimize)] ++
      ["cost: 2 x + 3 y".toList].map .plain ++ [.header .constraints none] ++
      ["c1: x + y >= 2".toList, "c2: x - y <= 1".toList].map .plain ++ [.header .bounds none,
        .plain "x <= 4".toList, .plain "y <= 4".toList, .header .general none,
        .plain "x y".toList, .header .finished none] := by decide +kernel
  have hrows' : rows text'.toList = [.header .objective (some .minimize)] ++
      ["cost : 2".toList, "x +".toList, "3 y".toList].map .plain ++ [.header .constraints none] ++
      ["c1: x".toList, "+y >= 2 c2: x-y\t<=".toList, "1".toList].map .plain ++
      [.header .bounds none, .plain "x <= 4".toList, .plain "y <= 4".toList,
        .header .general none, .plain "x y".toList, .header .finished none,
        .plain "of plan".toList] := by decide +kernel
  have hobjective : tokens? ["cost: 2 x + 3 y".toList] =
      tokens? ["cost : 2".toList, "x +".toList, "3 y".toList] := by decide +kernel
  have hconstraints : tokens? ["c1: x + y >= 2".toList, "c2: x - y <= 1".toList] =
      tokens? ["c1: x".toList, "+y >= 2 c2: x-y\t<=".toList, "1".toList] := by decide +kernel
  have h : Relaid .preamble (rows text.toList) (rows text'.toList) := by
    rw [hrows, hrows']
    simp only [List.append_assoc]
    refine .header _ .objective _ (.broken _ _ (.inl rfl) hobjective ?_)
    refine .header _ .constraints _ (.broken _ _ (.inr rfl) hconstraints ?_)
    refine .header _ .bounds _ (.plain _ _ (.plain _ _ ?_))
    exact .header _ .general _ (.plain _ _ (.finished _ _ _ _))
  exact ⟨h, by decide +kernel, next_of_relaid {} text text' true false 64 1 h⟩

end Reader

end LinearInterchange
