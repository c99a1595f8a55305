import LinearInterchange.Proofs.FlatZincTexts
import LinearInterchange.Proofs.ParserRelations

/-!
# What a FlatZinc model is read from

The reader takes the comments out of a text, each with the end of its line, and cuts what is left at
semicolons.  So what it makes of a text is a matter of the bare text (`next_bare`), and there it
goes on character by character (`Progress`): a part of the text can be exchanged for another one if
the item to which it belongs is added in the same way (`outcome_congr`).

The places of the items only matter for where an error is found, so texts are compared by the kinds
of their errors.
-/

namespace LinearInterchange

namespace FlatZinc

open Text Text.Parser

/-! ## Comments -/

/-- The text without its comments, which take the ends of their lines with them.  The first argument
tells whether the text begins within a comment. -/
def bare : Bool → List Char → List Char
  | _, [] => []
  | true, c :: cs => bare (c != '\n') cs
  | false, c :: cs => if c = '%' then bare true cs else c :: bare false cs

/-- The text ends within a comment. -/
def commented : Bool → List Char → Bool
  | comment, [] => comment
  | true, c :: cs => commented (c != '\n') cs
  | false, c :: cs => commented (c == '%') cs

/-- The comments of two texts one after another are those of the texts, as far as the second one
does not begin within one. -/
lemma bare_append (comment : Bool) (cs ds : List Char) :
    bare comment (cs ++ ds) = bare comment cs ++ bare (commented comment cs) ds := by
  induction cs generalizing comment with
  | nil => cases comment <;> rfl
  | cons c cs ih =>
    cases comment with
    | true => exact ih _
    | false =>
      simp only [List.cons_append, bare, commented]
      by_cases hc : c = '%'
      · subst hc
        exact ih true
      · rw [if_neg hc, if_neg hc, beq_eq_false_iff_ne.2 hc, ih false, List.cons_append]

/-- What is left of a text has no comments. -/
lemma percent_notMem_bare (comment : Bool) (cs : List Char) : '%' ∉ bare comment cs := by
  induction cs generalizing comment with
  | nil => cases comment <;> exact List.not_mem_nil
  | cons c cs ih =>
    cases comment with
    | true => exact ih _
    | false =>
      rw [bare]
      split
      · exact ih true
      next hc => exact List.not_mem_cons_of_ne_of_not_mem (Ne.symm hc) (ih false)

/-- A text without comments is bare. -/
lemma bare_of_notMem {cs : List Char} (h : '%' ∉ cs) : bare false cs = cs := by
  induction cs with
  | nil => rfl
  | cons c cs ih =>
    obtain ⟨hc, hcs⟩ := not_or.1 (mt List.mem_cons.2 h)
    rw [bare, if_neg (Ne.symm hc), ih hcs]

/-! ## Reading character by character -/

/-- The kind of a fault. -/
def Fault.kind (f : Fault) : ReadError.Kind :=
  f.refusal.kind

/-- Adds the item with a given text.  Of a fault, only the kind is told. -/
def Model.extend (settings : Settings) (m : Model) (text : List Char) :
    Except ReadError.Kind Model :=
  (m.addText settings text).mapError Fault.kind

/-- A model that is being read: what its items have made so far, and the characters of the current
item in reverse. -/
structure Progress where
  model : Except ReadError.Kind Model := .ok {}
  current : List Char := []

namespace Progress

/-- Reads a character.  A semicolon ends the item. -/
def read (settings : Settings) (p : Progress) (c : Char) : Progress :=
  if c = ';' then ⟨p.model.bind (·.extend settings p.current.reverse), []⟩
  else { p with current := c :: p.current }

/-- What a model comes to where its text ends. -/
def outcome (p : Progress) : Except ReadError.Kind Instance :=
  if p.current.all isBlank then
    p.model.bind fun m => if m.solved then .ok m.inst else .error Fault.noGoal.kind
  else .error Fault.unterminated.kind

end Progress

/-- What the reader makes of a text without comments. -/
def outcomeOf (settings : Settings) (cs : List Char) : Except ReadError.Kind Instance :=
  (cs.foldl (Progress.read settings) {}).outcome

variable {settings : Settings}

namespace Splitter

variable {sp : Splitter} {c : Char}

lemma push_of_comment (h : sp.comment = true) :
    sp.push c = { sp with offset := sp.offset + c.utf8Size, comment := c != '\n' } := by
  rw [push, if_pos h]

lemma push_percent (h : sp.comment = false) :
    sp.push '%' = { sp with offset := sp.offset + '%'.utf8Size, comment := true } := by
  rw [push, if_neg (by simp [h]), if_pos rfl]

/-- Outside comments, other characters belong to the current item. -/
lemma push_of_ne_percent (h : sp.comment = false) (hc : c ≠ '%') :
    sp.push c = { sp with
      offset := sp.offset + c.utf8Size
      start := sp.start <|> (if isBlank c then none else some sp.offset)
      current := c :: sp.current } := by
  rw [push, if_neg (by simp [h]), if_neg hc]

/-- The current item has begun just if it is not blank, and that stays so. -/
lemma isNone_start_push (h : sp.start.isNone = sp.current.all isBlank) (c : Char) :
    (sp.push c).start.isNone = (sp.push c).current.all isBlank := by
  unfold push
  split
  · exact h
  · split
    · exact h
    · rw [List.all_cons, ← h]
      cases sp.start <;> cases isBlank c <;> rfl

end Splitter

/-- The items that are cut out of a text are those that end in its bare text, and the last one lacks
its end if something but white space follows. -/
lemma foldl_read_bare (sp : Splitter) (cs : List Char) (r : Except ReadError.Kind Model)
    (hstart : sp.start.isNone = sp.current.all isBlank) :
    let p := (bare sp.comment cs).foldl (Progress.read settings) ⟨r, sp.current⟩
    p.model = r.bind (((sp.items cs).1.map (·.2)).foldlM (Model.extend settings)) ∧
      p.current.all isBlank = (sp.items cs).2.isNone := by
  induction cs generalizing sp r with
  | nil =>
    have hnil : ∀ comment, bare comment [] = [] := fun comment => by cases comment <;> rfl
    rw [hnil]
    refine ⟨?_, hstart.symm⟩
    cases r <;> rfl
  | cons c cs ih =>
    rw [Splitter.items]
    split
    next hend =>
      obtain ⟨rfl, hcode⟩ := hend
      have hrest := ih { offset := sp.offset + ';'.utf8Size }
        (r.bind (·.extend settings sp.current.reverse)) rfl
      rw [Bool.not_eq_true'] at hcode
      rw [hcode, bare, if_neg (by decide), List.foldl_cons]
      refine ⟨hrest.1.trans ?_, hrest.2⟩
      cases r <;> rfl
    next hgo =>
      -- no item ends here, so both sides go on from the character that is pushed
      have hrest := ih (sp.push c) r (Splitter.isNone_start_push hstart c)
      cases hcomment : sp.comment with
      | true =>
        rw [Splitter.push_of_comment hcomment] at hrest ⊢
        rw [bare]
        exact hrest
      | false =>
        have hend : c ≠ ';' := fun hc => hgo ⟨hc, by rw [hcomment]; rfl⟩
        rw [bare]
        split
        next hpercent =>
          subst hpercent
          rw [Splitter.push_percent hcomment] at hrest ⊢
          exact hrest
        next hpercent =>
          rw [Splitter.push_of_ne_percent hcomment hpercent, hcomment] at hrest
          rw [Splitter.push_of_ne_percent hcomment hpercent, hcomment, List.foldl_cons,
            Progress.read, if_neg hend]
          exact hrest

/-- Items are added where they stand as they are added without their places. -/
lemma addAll_kind (m : Model) (items : List (Position × List Char)) :
    (m.addAll settings items).mapError ReadError.kind =
      (items.map (·.2)).foldlM (Model.extend settings) m := by
  induction items generalizing m with
  | nil => rfl
  | cons item items ih =>
    obtain ⟨pos, text⟩ := item
    simp only [Model.addAll, List.map_cons, List.foldlM_cons, Model.extend] at ih ⊢
    cases m.addText settings text with
    | error f => rfl
    | ok m' => exact ih m'

/-- The items of a text are found on its lines, unless the last one has no end. -/
lemma splitItems_kind {starts : List ℕ} (h : starts.head? = some 0) (base : Position)
    (cs : List Char) :
    ((splitItems starts base cs).mapError ReadError.kind).map (·.map (·.2)) =
      if (Splitter.items {} cs).2.isNone then .ok ((Splitter.items {} cs).1.map (·.2))
      else .error Fault.unterminated.kind := by
  have hlocate : ∀ offset, ∃ pos,
      base.report Refusal.defect (locate starts base offset) = .ok pos := fun offset => by
    obtain ⟨pos, hpos, -⟩ := (locate_settles h base offset).exists_ok
    exact ⟨pos, by rw [hpos]; rfl⟩
  -- every place lies on some line, so only an item without an end can be refused
  choose place hplace using hlocate
  simp only [splitItems]
  generalize hlocated :
    (List.mapM _ _ : Except ReadError (List (Position × List Char))) = located
  have hall : located =
      .ok ((Splitter.items {} cs).1.map fun item => (place item.1, item.2)) := by
    rw [← hlocated]
    refine mapM_eq_ok.2 (List.forall₂_map_right_iff.2 (List.forall₂_same.2 fun item _ => ?_))
    exact bind_eq_ok.2 ⟨place item.1, hplace item.1, rfl⟩
  rw [hall]
  cases hrest : (Splitter.items {} cs).2 with
  | none => exact congrArg Except.ok (List.map_map ..)
  | some offset =>
    show Except.map _ (Except.mapError _ (Except.bind (base.report Refusal.defect
      (locate starts base offset)) _)) = _
    rw [hplace]
    rfl

/-- What a text is decoded to is what the reader makes of the bare text. -/
lemma decodeText_kind {starts : List ℕ} (h : starts.head? = some 0) (base ending : Position)
    (cs : List Char) :
    (decodeText settings base ending starts cs).mapError ReadError.kind =
      outcomeOf settings (bare false cs) := by
  obtain ⟨hmodel, hcurrent⟩ := @foldl_read_bare settings {} cs (.ok {}) rfl
  have hsplit := splitItems_kind h base cs
  rw [decodeText, outcomeOf, Progress.outcome, hcurrent, hmodel]
  -- an item without an end is noticed before any item is added, on both sides
  cases hitems : splitItems starts base cs with
  | error e =>
    rw [hitems] at hsplit
    split
    next hnone =>
      rw [if_pos hnone] at hsplit
      cases hsplit
    next hsome =>
      rw [if_neg hsome] at hsplit
      exact congrArg _ (Except.error.inj hsplit)
  | ok items =>
    rw [hitems] at hsplit
    split
    next hnone =>
      rw [if_pos hnone] at hsplit
      have hsame : items.map (·.2) = (Splitter.items {} cs).1.map (·.2) := Except.ok.inj hsplit
      rw [← hsame]
      show Except.mapError _ (Model.addAll settings {} items >>= _) =
        Except.bind ((items.map (·.2)).foldlM (Model.extend settings) {}) _
      rw [← addAll_kind]
      cases Model.addAll settings {} items with
      | error e => rfl
      | ok m =>
        show Except.mapError _ (if m.solved then Except.ok m.inst else _) = _
        simp only [Except.mapError, Except.bind]
        cases m.solved <;> rfl
    next hsome =>
      rw [if_neg hsome] at hsplit
      cases hsplit

/-! ## Exchanging a part of an item -/

/-- The part of the item at the end of a text: what stands behind the last semicolon. -/
def itemBefore (cs : List Char) : List Char :=
  cs.rtakeWhile (· != ';')

/-- The part of the item at the beginning of a text: what stands in front of the first semicolon. -/
def itemAfter (cs : List Char) : List Char :=
  cs.takeWhile (· != ';')

/-- Items with these texts are added alike, and they are blank alike. -/
structure Interchangeable (settings : Settings) (text text' : List Char) : Prop where
  extend_eq : ∀ m : Model, m.extend settings text = m.extend settings text'
  blank_eq : text.all isBlank = text'.all isBlank

/-- The characters of an item are gathered. -/
lemma foldl_read_item {cs : List Char} (h : ';' ∉ cs) (r : Except ReadError.Kind Model)
    (current : List Char) :
    cs.foldl (Progress.read settings) ⟨r, current⟩ = ⟨r, cs.reverse ++ current⟩ := by
  induction cs generalizing current with
  | nil => rfl
  | cons c cs ih =>
    obtain ⟨hc, hcs⟩ := not_or.1 (mt List.mem_cons.2 h)
    rw [List.foldl_cons, Progress.read, if_neg (Ne.symm hc), ih hcs, List.reverse_cons,
      List.append_assoc, List.singleton_append]

/-- The current item is what stands behind the last semicolon. -/
lemma current_foldl_read (cs : List Char) :
    (cs.foldl (Progress.read settings) {}).current.reverse = itemBefore cs := by
  induction cs using List.reverseRecOn with
  | nil => rfl
  | append_singleton cs c ih =>
    rw [List.foldl_append, List.foldl_cons, List.foldl_nil, Progress.read]
    split
    next hc =>
      rw [itemBefore, List.rtakeWhile_concat_neg _ _ _ (by simp [hc])]
      rfl
    next hc =>
      rw [itemBefore, List.rtakeWhile_concat_pos _ _ _ (by simp [hc]), List.reverse_cons, ih]
      rfl

/-- It does not matter which of two interchangeable texts the current item will have. -/
lemma outcome_congr (r : Except ReadError.Kind Model) {current current' : List Char}
    (cs : List Char) (h : Interchangeable settings (current.reverse ++ itemAfter cs)
      (current'.reverse ++ itemAfter cs)) :
    (cs.foldl (Progress.read settings) ⟨r, current⟩).outcome =
      (cs.foldl (Progress.read settings) ⟨r, current'⟩).outcome := by
  induction cs generalizing current current' with
  | nil =>
    have hblank := h.blank_eq
    simp only [itemAfter, List.takeWhile_nil, List.append_nil, List.all_reverse] at hblank
    rw [List.foldl_nil, List.foldl_nil, Progress.outcome, Progress.outcome, hblank]
  | cons c cs ih =>
    rw [List.foldl_cons, List.foldl_cons, Progress.read, Progress.read]
    by_cases hc : c = ';'
    · subst hc
      have hextend := h.extend_eq
      simp only [itemAfter, List.takeWhile_cons_of_neg, bne_self_eq_false, Bool.false_eq_true,
        not_false_eq_true, List.append_nil] at hextend
      rw [if_pos rfl, if_pos rfl]
      simp only [hextend]
    · rw [if_neg hc, if_neg hc]
      refine ih ?_
      have hafter : itemAfter (c :: cs) = c :: itemAfter cs :=
        List.takeWhile_cons_of_pos (by simp [hc])
      simpa only [hafter, List.reverse_cons, List.append_assoc, List.singleton_append] using h

/-- A part of an item can be put into a text if the item is added as it is without. -/
lemma outcomeOf_insert {before part after : List Char} (hpart : ';' ∉ part)
    (h : Interchangeable settings (itemBefore before ++ itemAfter after)
      (itemBefore before ++ part ++ itemAfter after)) :
    outcomeOf settings (before ++ after) = outcomeOf settings (before ++ part ++ after) := by
  rw [outcomeOf, outcomeOf, List.foldl_append, List.foldl_append, List.foldl_append,
    foldl_read_item hpart]
  refine outcome_congr _ after ?_
  rw [List.reverse_append, List.reverse_reverse, current_foldl_read]
  exact h

/-! ## Items that make no difference -/

/-- The items are the same, up to the wording of a type that is not supported. -/
def Item.Alike : Item → Item → Prop
  | .var (.other _) name value, .var (.other _) name' value' => name = name' ∧ value = value'
  | a, b => a = b

/-- An item is like itself. -/
lemma Item.Alike.refl (a : Item) : a.Alike a := by
  cases a with
  | var type name value =>
    cases type with
    | other text => exact ⟨rfl, rfl⟩
    | _ => exact rfl
  | _ => exact rfl

/-- Both texts are read, as items that are alike, or both are refused for the same kind of reason.
-/
def ReadAlike : Except ItemFault Item → Except ItemFault Item → Prop
  | .ok a, .ok b => a.Alike b
  | .error e, .error e' => (Fault.item e).kind = (Fault.item e').kind
  | _, _ => False

/-- Items that are alike are added alike. -/
lemma add_alike (m : Model) {a b : Item} (h : a.Alike b) :
    (m.add settings a).mapError Fault.kind = (m.add settings b).mapError Fault.kind := by
  unfold Item.Alike at h
  split at h
  next => rfl
  next => rw [h]

/-- Texts are interchangeable if they are read as items that are alike. -/
lemma interchangeable_of_read {text text' : List Char} (hnil : trim text = [] ↔ trim text' = [])
    (hread : ReadAlike (Item.read (trim text)) (Item.read (trim text'))) :
    Interchangeable settings text text' where
  extend_eq m := by
    simp only [Model.extend, Model.addText, List.isEmpty_iff, hnil]
    split
    · rfl
    · split
      · rfl
      · revert hread
        cases Item.read (trim text) with
        | error e =>
          cases Item.read (trim text') with
          | error e' => exact fun hkind => congrArg (fun k => Except.error k) hkind
          | ok b => exact False.elim
        | ok a =>
          cases Item.read (trim text') with
          | error e' => exact False.elim
          | ok b => exact fun halike => add_alike m halike
  blank_eq := by
    rw [Bool.eq_iff_iff, ← trim_eq_nil_iff, ← trim_eq_nil_iff]
    exact hnil

/-! ## Reading items -/

/-- The parser of an item with layout behind it. -/
def toEnd (p : Parser Item) : Parser Item := do
  let item ← p
  layout
  return item

/-- The parser for items of the kind that a keyword announces. -/
def parserOf? (keyword : List Char) : Option (Parser Item) :=
  match String.ofList keyword with
  | "var" => some varItem
  | "array" => some arrayItem
  | "int" | "bool" => some paramItem
  | "constraint" => some constrItem
  | "solve" => some solveItem
  | _ => none

/-- The keyword of an item. -/
def keywordOf (cs : List Char) : List Char :=
  (ident cs).elim [] (·.1)

/-- Texts that begin with the same word have the same keyword. -/
lemma keywordOf_eq {R S : List Char → List Char → Prop} (h : Likens R S Eq ident ident)
    {cs cs' : List Char} (hR : R cs cs') : keywordOf cs = keywordOf cs' := by
  unfold keywordOf
  cases hword : ident cs with
  | none => rw [h.eq_none hR hword]
  | some r =>
    obtain ⟨b, rest', hword', rfl, -⟩ := h.exists_some hR hword
    rw [hword']
    rfl

/-- An item with a keyword that is known is read by the parser for it. -/
lemma read_of_announced {cs : List Char} {p : Parser Item}
    (hp : parserOf? (keywordOf cs) = some p) :
    Item.read cs =
      (parseWhole? (toEnd p) cs).elim (.error (.invalid (keywordOf cs))) .ok := by
  have hkeyword : (ident.parse cs).elim [] (·.1) = keywordOf cs := rfl
  simp only [Item.read, hkeyword]
  unfold parserOf? at hp
  split at hp
  case h_7 => cases hp
  all_goals
    next heq =>
      cases hp
      rw [heq]
      rfl

/-- Why a text with a keyword that is not known is no item. -/
def unreadable (keyword cs : List Char) : ItemFault :=
  match String.ofList keyword with
  | "predicate" | "set" | "float" => .unsupported keyword
  | _ => .unknown cs

/-- An item with a keyword that is not known is refused. -/
lemma read_of_unannounced {cs : List Char} (hp : parserOf? (keywordOf cs) = none) :
    Item.read cs = .error (unreadable (keywordOf cs) cs) := by
  have hkeyword : (ident.parse cs).elim [] (·.1) = keywordOf cs := rfl
  simp only [Item.read, hkeyword]
  unfold parserOf? at hp
  unfold unreadable
  generalize String.ofList (keywordOf cs) = keyword at hp ⊢
  split at hp
  case h_7 => grind
  all_goals cases hp

/-- Texts with the same keyword are read alike if the parser for it accepts both of them, or
neither, as items that are alike. -/
lemma read_alike {cs cs' : List Char} (hkeyword : keywordOf cs = keywordOf cs')
    (h : ∀ p, parserOf? (keywordOf cs) = some p →
      Option.Rel Item.Alike (parseWhole? (toEnd p) cs) (parseWhole? (toEnd p) cs')) :
    ReadAlike (Item.read cs) (Item.read cs') := by
  cases hp : parserOf? (keywordOf cs) with
  | some p =>
    rw [read_of_announced hp, read_of_announced (hkeyword ▸ hp), ← hkeyword]
    have hrel := h p hp
    generalize parseWhole? (toEnd p) cs = x at hrel ⊢
    generalize parseWhole? (toEnd p) cs' = y at hrel ⊢
    cases hrel with
    | none => exact rfl
    | some halike => exact halike
  | none =>
    rw [read_of_unannounced hp, read_of_unannounced (hkeyword ▸ hp), ← hkeyword]
    -- the reason quotes the text, but its kind is a matter of the keyword
    show (Fault.item (unreadable (keywordOf cs) cs)).kind =
      (Fault.item (unreadable (keywordOf cs) cs')).kind
    unfold unreadable
    split <;> rfl

/-! ## Models that are accepted -/

/-- What is refused stays refused. -/
lemma isOk_outcome_of_error (e : ReadError.Kind) (current cs : List Char) :
    (cs.foldl (Progress.read settings) ⟨.error e, current⟩).outcome.isOk = false := by
  induction cs generalizing current with
  | nil =>
    rw [List.foldl_nil, Progress.outcome]
    split <;> rfl
  | cons c cs ih =>
    rw [List.foldl_cons, Progress.read]
    split
    · exact ih []
    · exact ih (c :: current)

/-- Up to any place, a model that is accepted is read. -/
lemma exists_model_of_accepted {r : Except ReadError.Kind Model} {current cs : List Char}
    {inst : Instance} (h : (cs.foldl (Progress.read settings) ⟨r, current⟩).outcome = .ok inst) :
    ∃ m, r = .ok m := by
  cases r with
  | ok m => exact ⟨m, rfl⟩
  | error e =>
    have hfails := congrArg Except.isOk h
    rw [isOk_outcome_of_error] at hfails
    cases hfails

/-- A model that is accepted has a current item that is blank or can be added. -/
lemma exists_extend_of_accepted {r : Except ReadError.Kind Model} {current cs : List Char}
    {inst : Instance} (h : (cs.foldl (Progress.read settings) ⟨r, current⟩).outcome = .ok inst) :
    (current.reverse ++ itemAfter cs).all isBlank = true ∨
      ∃ m m' : Model, m.extend settings (current.reverse ++ itemAfter cs) = .ok m' := by
  induction cs generalizing current with
  | nil =>
    rw [List.foldl_nil, Progress.outcome] at h
    split at h
    next hblank => exact .inl (by simpa [itemAfter] using hblank)
    · cases h
  | cons c cs ih =>
    rw [List.foldl_cons, Progress.read] at h
    by_cases hc : c = ';'
    · subst hc
      have hafter : itemAfter (';' :: cs) = [] := List.takeWhile_cons_of_neg (by decide)
      rw [if_pos rfl] at h
      rw [hafter, List.append_nil]
      obtain ⟨m', hm'⟩ := exists_model_of_accepted h
      obtain ⟨m, -, hextend⟩ := bind_eq_ok.1 hm'
      exact .inr ⟨m, m', hextend⟩
    · rw [if_neg hc] at h
      have hafter : itemAfter (c :: cs) = c :: itemAfter cs :=
        List.takeWhile_cons_of_pos (by simp [hc])
      simpa only [hafter, List.reverse_cons, List.append_assoc, List.singleton_append] using ih h

/-- A text that can be added is read as an item, unless it is blank. -/
lemma exists_read_of_extend {m m' : Model} {text : List Char}
    (h : m.extend settings text = .ok m') (hne : trim text ≠ []) :
    ∃ item, Item.read (trim text) = .ok item := by
  have hadd := mapError_eq_ok.1 h
  simp only [Model.addText, List.isEmpty_iff, if_neg hne] at hadd
  split at hadd
  · cases hadd
  · obtain ⟨item, hitem, -⟩ := bind_eq_ok.1 hadd
    exact ⟨item, mapError_eq_ok.1 hitem⟩

/-- In a model that is accepted, the item around a place is read. -/
lemma exists_read_of_accepted {before after : List Char} {inst : Instance}
    (h : outcomeOf settings (before ++ after) = .ok inst)
    (hne : trim (itemBefore before ++ itemAfter after) ≠ []) :
    ∃ item, Item.read (trim (itemBefore before ++ itemAfter after)) = .ok item := by
  rw [outcomeOf, List.foldl_append] at h
  have hitem := exists_extend_of_accepted h
  rw [current_foldl_read] at hitem
  rcases hitem with hblank | ⟨m, m', hextend⟩
  · exact absurd (trim_eq_nil_iff.2 hblank) hne
  · exact exists_read_of_extend hextend hne

/-! ## Arguments of annotations -/

/-- The text after a closing bracket that brings the number of open brackets, now `depth`, to zero,
if there is such a bracket. -/
def closing (depth : ℕ) (cs : List Char) : Option (List Char) :=
  (afterBrackets depth cs).toOption.join

/-- Arguments are skipped up to the bracket that closes them. -/
lemma skipArgs_eq (cs : List Char) :
    skipArgs cs =
      if (cs.dropWhile isLayout).head? = some '(' then
        (closing 0 (cs.dropWhile isLayout)).map fun rest => ((), rest)
      else some ((), cs) := by
  simp only [skipArgs, closing]
  split
  · cases afterBrackets 0 (cs.dropWhile isLayout) with
    | error e => rfl
    | ok r => cases r <;> rfl
  · rfl

lemma closing_open {c : Char} (hc : c = '(' ∨ c = '[') (depth : ℕ) (cs : List Char) :
    closing depth (c :: cs) = closing (depth + 1) cs := by
  rw [closing, afterBrackets.eq_def]
  simp only [if_pos hc]
  rfl

/-- A bracket closes. -/
lemma closing_close {c : Char} (hc : c = ')' ∨ c = ']') (depth : ℕ) (cs : List Char) :
    closing depth (c :: cs) =
      match depth with
      | 0 => none
      | 1 => some cs
      | depth + 2 => closing (depth + 1) cs := by
  have hopen : ¬(c = '(' ∨ c = '[') := by rcases hc with rfl | rfl <;> decide
  rw [closing, afterBrackets.eq_def]
  simp only [if_neg hopen, if_pos hc]
  split <;> rfl

/-- Other characters are passed over. -/
lemma closing_other {c : Char} (hopen : ¬(c = '(' ∨ c = '[')) (hclose : ¬(c = ')' ∨ c = ']'))
    (depth : ℕ) (cs : List Char) : closing depth (c :: cs) = closing depth cs := by
  rw [closing, afterBrackets.eq_def]
  simp only [if_neg hopen, if_neg hclose]
  rfl

/-- Layout is no bracket. -/
lemma closing_layout_append {w : List Char} (hw : ∀ c ∈ w, isLayout c = true) (depth : ℕ)
    (cs : List Char) : closing depth (w ++ cs) = closing depth cs := by
  induction w with
  | nil => rfl
  | cons c w ih =>
    obtain ⟨hc, hw⟩ := List.forall_mem_cons.1 hw
    have hopen : ¬(c = '(' ∨ c = '[') := by rintro (rfl | rfl) <;> cases hc
    have hclose : ¬(c = ')' ∨ c = ']') := by rintro (rfl | rfl) <;> cases hc
    rw [List.cons_append, closing_other hopen hclose, ih hw]

/-- What follows a closing bracket is the end of the text. -/
lemma closing_suffix {depth : ℕ} {cs rest : List Char} (h : closing depth cs = some rest) :
    rest <:+ cs := by
  induction cs generalizing depth with
  | nil => cases h
  | cons c cs ih =>
    by_cases hopen : c = '(' ∨ c = '['
    · rw [closing_open hopen] at h
      exact (ih h).trans (List.suffix_cons c cs)
    · by_cases hclose : c = ')' ∨ c = ']'
      · rw [closing_close hclose] at h
        split at h
        · cases h
        · obtain rfl := Option.some.inj h
          exact List.suffix_cons c cs
        · exact (ih h).trans (List.suffix_cons c cs)
      · rw [closing_other hopen hclose] at h
        exact (ih h).trans (List.suffix_cons c cs)

/-- Arguments may be left out. -/
lemma takes_skipArgs : Takes 0 skipArgs := by
  intro cs a rest h
  rw [skipArgs_eq] at h
  split at h
  · obtain ⟨rest', hrest, heq⟩ := Option.map_eq_some_iff.1 h
    cases heq
    exact ((closing_suffix hrest).trans (List.dropWhile_suffix _)).length_le
  · cases h
    exact Nat.le_refl _

/-- An annotation takes its colons. -/
lemma takes_annotation : Takes 1 annotation := by
  have hcolons : Takes 1 (literal "::".toList) := (Takes.literal _).mono (by decide)
  have hident : Takes 0 ident :=
    .bind_left ((Takes.run1 _).mono (Nat.zero_le 1)) fun w => .bind_left (.run _) fun w' => .pure _
  refine .bind_right .layout fun _ => .bind_left hcolons fun _ => ?_
  exact .bind_left .layout fun _ => .bind_left hident fun w => takes_skipArgs

/-- Annotations are skipped in both texts if each of them is, and both go on like one or neither. -/
lemma annotations_likens {R : List Char → List Char → Prop}
    (h : Likens R R Eq annotation annotation)
    (hannotated : ∀ cs cs', R cs cs' → annotated cs = annotated cs') :
    Likens R R Eq annotations annotations := by
  refine (h.many takes_annotation takes_annotation).andThen fun _ => ?_
  intro cs cs' hR
  simp only [hannotated cs cs' hR]
  split
  · exact .none
  · exact .some ⟨True.intro, hR⟩

/-! ## Parts of items in texts that are alike -/

/-- A character within a word, a list or a range. -/
def isInner (c : Char) : Bool :=
  isIdentPart c || "+-[],.".toList.contains c

lemma isIdentPart_of_isDigit {c : Char} (h : c.isDigit = true) : isIdentPart c = true := by
  rw [isIdentPart, Char.isAlphanum, h, Bool.or_true, Bool.true_or]

/-- An expression takes a character at least. -/
lemma takes_exprWithin (depth : ℕ) : Takes 1 (exprWithin depth) := by
  induction depth with
  | zero => exact .failure
  | succ depth ih =>
    have hident : Takes 1 ident :=
      .bind_left (.run1 _) fun w => .bind_left (.run _) fun w' => .pure _
    refine .orElse ?_ (.orElse (.bind_left .word fun n => .pure _) ?_)
    · refine .bind_left (.char '[') fun _ => .bind_right ?_ fun es => ?_
      · exact .sepBy (.padded (ih.mono (Nat.zero_le 1)))
      · refine .bind_right .layout fun _ => .bind_left ?_ fun _ => .pure _
        exact (Takes.char ']').mono (Nat.zero_le 1)
    · exact .bind_left hident fun w => .pure _

lemma takes_expr : Takes 1 expr :=
  fun cs a rest h => takes_exprWithin _ cs a rest h

/-- A bound on the depth above the length of the text does not bind. -/
lemma exprWithin_deep {k n m : ℕ} (hn : k ≤ n) (hm : k ≤ m) :
    Likens (Within k) (Within k) Eq (exprWithin n) (exprWithin m) := by
  induction k generalizing n m with
  | zero =>
    rintro cs cs' ⟨-, hlt⟩
    exact absurd hlt (Nat.not_lt_zero _)
  | succ k ih =>
    cases n with
    | zero => exact absurd hn (Nat.not_succ_le_zero k)
    | succ n =>
      cases m with
      | zero => exact absurd hm (Nat.not_succ_le_zero k)
      | succ m =>
        have hkeeps : ∀ {α : Type} {p : Parser α}, Takes 1 p →
            Likens (Within (k + 1)) (Within (k + 1)) Eq p p := fun hp =>
          (hp.mono (Nat.zero_le 1)).within (k + 1)
        have hlayout : Likens (Within k) (Within k) Eq layout layout := Takes.layout.within k
        have helement := (ih (Nat.le_of_succ_le_succ hn) (Nat.le_of_succ_le_succ hm)).padded hlayout
        have helements := Likens.sepBy (((Takes.char ',').mono (Nat.zero_le 1)).within k) helement
          (.char ',') (.char ',') (.padded ((takes_exprWithin n).mono (Nat.zero_le 1)))
          (.padded ((takes_exprWithin m).mono (Nat.zero_le 1)))
        refine .orElse ?_ (.orElse ?_ ?_)
        -- elements stand behind a bracket, so there is one character less for them
        · have harray := ((Takes.char '[').within k).andThen fun _ => helements.andThen fun es =>
            hlayout.andThen fun _ => (((Takes.char ']').mono (Nat.zero_le 1)).within k).andThen
              fun _ => Likens.pure (a := Expr.array es) rfl
          exact harray.imp (fun _ _ h => h) (fun _ _ h => h)
            fun _ _ h => ⟨h.1, Nat.lt_succ_of_lt h.2⟩
        · exact (hkeeps .word).andThen fun n => .pure rfl
        · refine (hkeeps ?_).andThen fun w => .pure rfl
          exact .bind_left (.run1 _) fun w => .bind_left (.run _) fun w' => .pure _

section Parts

variable {R : List Char → List Char → Prop} (h : Agree isInner R)

include h

lemma ident_likens : Likens R R Eq ident ident := by
  have hpart : Agree isIdentPart R := h.mono fun c hc => by rw [isInner, hc, Bool.true_or]
  have hstart : Agree isIdentStart R := hpart.mono fun c => isIdentPart_of_isIdentStart
  exact hstart.run1.andThen fun w => hpart.run.andThen fun w' => .pure rfl

lemma word_likens : Likens R R Eq word word :=
  h.word (fun c hc => by rw [isInner, isIdentPart_of_isDigit hc, Bool.true_or]) rfl rfl

variable (hlayout : Likens R R Eq layout layout)

include hlayout

lemma range_likens : Likens R R Eq range range := by
  have hdots : Likens R R Eq (literal "..".toList) (literal "..".toList) :=
    h.literal (by decide)
  refine (word_likens h).andThen fun lb => (hdots.padded hlayout).andThen fun _ => ?_
  exact (word_likens h).andThen fun ub => .pure rfl

/-- An expression within a depth is read from both texts. -/
lemma exprWithin_likens (depth : ℕ) : Likens R R Eq (exprWithin depth) (exprWithin depth) := by
  induction depth with
  | zero => exact .failure
  | succ depth ih =>
    have htakes : Takes 0 (padded (exprWithin depth)) :=
      .padded ((takes_exprWithin depth).mono (Nat.zero_le 1))
    have helements := Likens.sepBy (h.char (c := ',') rfl) (ih.padded hlayout)
      (.char ',') (.char ',') htakes htakes
    refine .orElse ?_ (.orElse ?_ ?_)
    · refine (h.char rfl).andThen fun _ => helements.andThen fun es => ?_
      exact hlayout.andThen fun _ => (h.char rfl).andThen fun _ => .pure rfl
    · exact (word_likens h).andThen fun n => .pure rfl
    · exact (ident_likens h).andThen fun w => .pure rfl

/-- An expression is read from both texts, however long they are. -/
lemma expr_likens : Likens R R Eq expr expr := by
  intro cs cs' hR
  have hdeep : ∀ ds : List Char, ds.length ≤ cs.length + cs'.length →
      expr ds = exprWithin (cs.length + cs'.length + 1) ds := fun ds hds =>
    (exprWithin_deep (Nat.le_refl _) (Nat.succ_le_succ hds)).eq_of_within (Nat.lt_succ_self _)
  rw [hdeep cs (Nat.le_add_right ..), hdeep cs' (Nat.le_add_left ..)]
  exact exprWithin_likens h hlayout _ hR

end Parts

end FlatZinc

namespace Reader

open Text FlatZinc

/-- What the first call of a reader makes of a text is what is made of the bare text. -/
lemma next_bare (settings : FlatZinc.Settings) (cs : List Char) (seekable : Bool) (chunk : ℕ) :
    (next ⟨.flatZinc settings, {}⟩ (.ofBytes (utf8 cs) seekable chunk)).1.mapError ReadError.kind =
      (outcomeOf settings (bare false cs)).map some := by
  have hrest : (InputStream.ofBytes (utf8 cs) seekable chunk).source.rest = utf8 cs := rfl
  have hsingle := InputFormat.fst_single
    (FlatZinc.decode settings (.ofBytes (utf8 cs) seekable chunk))
  have hdecode : ∀ input, (InputFormat.flatZinc settings).decode input =
      InputFormat.decode.single (FlatZinc.decode settings input) := fun _ => rfl
  rw [next_fresh, hdecode, hsingle, mapError_map, decode_text settings hrest,
    decodeText_kind (head?_table cs)]

end Reader

end LinearInterchange
