import LinearInterchange.Format.FlatZinc.Reader
import LinearInterchange.Proofs.StreamReading

/-!
# What the FlatZinc reader accepts

The items of a model are cut out of its whole text before any of them is read, and an item is
refused on the line where it begins.  The table of the places where lines start begins with zero, so
every place of the text lies on a line.

An item that is read changes the instance by declaring a variable, by adding a constraint or by
setting the objective, all of which keep it sound; the name of a declared variable was accepted as
an identifier.
-/

namespace LinearInterchange.FlatZinc

open Text Text.Parser

variable {m : Model} {inst : Instance}

/-! ## Items -/

/-- A closing bracket within an open one has been opened. -/
lemma afterBrackets_settles (depth : ℕ) (cs : List Char) :
    Settles (fun _ => False) (fun _ => True) (afterBrackets (depth + 1) cs) := by
  induction cs generalizing depth with
  | nil => exact True.intro
  | cons c cs ih =>
    unfold afterBrackets
    split
    · exact ih (depth + 1)
    · split
      · cases depth with
        | zero => exact True.intro
        | succ depth => exact ih depth
      · exact ih depth

/-- Every bracket that is closed after an opening bracket has been opened. -/
lemma exists_afterBrackets {cs : List Char} (h : cs.head? = some '(') :
    ∃ r, afterBrackets 0 cs = .ok r := by
  cases cs with
  | nil => cases h
  | cons c cs =>
    obtain rfl := Option.some.inj h
    unfold afterBrackets
    rw [if_pos (.inl rfl)]
    obtain ⟨r, hr, -⟩ := (afterBrackets_settles 0 cs).exists_ok
    exact ⟨r, hr⟩

/-- An item for a variable names it by a word; of other items nothing is asked. -/
def Item.Named : Item → Prop
  | .var _ name _ => IsWord name
  | _ => True

lemma isIdentPart_of_isIdentStart {c : Char} (h : isIdentStart c = true) :
    isIdentPart c = true := by
  rw [isIdentStart, Bool.or_eq_true] at h
  rw [isIdentPart, Char.isAlphanum, Bool.or_eq_true, Bool.or_eq_true]
  exact h.imp_left .inl

/-- Characters of words are no white space. -/
lemma isBlank_of_isIdentPart {c : Char} (h : isIdentPart c = true) : isBlank c = false := by
  rw [isIdentPart, Char.isAlphanum, Bool.or_eq_true, Bool.or_eq_true, beq_iff_eq] at h
  rcases h with (halpha | hdigit) | rfl
  · exact isBlank_of_isAlpha halpha
  · exact isBlank_of_isDigit hdigit
  · decide

lemma ensures_ident : Ensures IsWord ident :=
  .identifier (fun _ hc => isBlank_of_isIdentPart (isIdentPart_of_isIdentStart hc))
    (fun _ => isBlank_of_isIdentPart) fun _ hw => hw

lemma ensures_varItem : Ensures Item.Named varItem := by
  refine .after fun _ => .after fun _ => .after fun type => .after fun _ => ?_
  refine .bind ensures_ident fun name hname => ?_
  exact .after fun _ => .after fun _ => .pure hname

lemma ensures_arrayItem : Ensures Item.Named arrayItem := by
  refine .after fun _ => .after fun _ => .after fun _ => .after fun _ => .after fun _ => ?_
  refine .after fun _ => .after fun _ => .after fun _ => .after fun _ => .after fun _ => ?_
  exact .after fun _ => .after fun _ => .pure True.intro

lemma ensures_paramItem : Ensures Item.Named paramItem := by
  refine .after fun _ => .after fun _ => .after fun _ => .after fun _ => ?_
  exact .after fun _ => .pure True.intro

lemma ensures_constrItem : Ensures Item.Named constrItem := by
  refine .after fun _ => .after fun _ => .after fun _ => .after fun _ => ?_
  exact .after fun _ => .after fun _ => .after fun _ => .pure True.intro

lemma ensures_solveItem : Ensures Item.Named solveItem := by
  refine .after fun _ => .after fun _ => .after fun _ => .orElse ?_ ?_
  · exact .after fun _ => .pure True.intro
  · exact .after fun _ => .after fun _ => .after fun _ => .pure True.intro

/-- An item that is read for a variable names it by a word. -/
lemma read_settles (cs : List Char) : Settles (fun _ => True) Item.Named (Item.read cs) := by
  have hwith : ∀ {p : Parser Item} {keyword : List Char}, Ensures Item.Named p →
      Settles (fun _ => True) Item.Named ((parseWhole? (do
        let item ← p
        layout
        return item) cs).elim (.error (ItemFault.invalid keyword)) .ok) := by
    intro p keyword hp
    cases hread : parseWhole? (do
      let item ← p
      layout
      return item) cs with
    | none => exact True.intro
    | some item =>
      have hall : Ensures Item.Named (do
          let item ← p
          layout
          return item) := .bind hp fun item hitem => .after fun _ => .pure hitem
      exact hall.parseWhole? hread
  simp only [Item.read]
  split
  · exact hwith ensures_varItem
  · exact hwith ensures_arrayItem
  · exact hwith ensures_paramItem
  · exact hwith ensures_paramItem
  · exact hwith ensures_constrItem
  · exact hwith ensures_solveItem
  all_goals exact True.intro

/-! ## Building the instance -/

lemma isOrdinary_refusal (f : Fault) : f.refusal.IsOrdinary := by
  cases f with
  | item e => cases e <;> rintro a ⟨⟩
  | _ => rintro a ⟨⟩

/-- The type of a variable is a domain with a value, or it is refused. -/
lemma domain_settles (settings : Settings) (name : String) (type : VarType) :
    Settles (fun _ => True) Domain.Nonempty (type.domain settings name) := by
  cases type with
  | bool => exact Domain.nonempty_bool
  | int =>
    rw [VarType.domain]
    split
    · exact (Domain.ofBounds_settles _ _).mapError fun _ _ => True.intro
    · exact True.intro
  | range lb ub => exact (Domain.ofBounds_settles lb ub).mapError fun _ _ => True.intro
  | other text => exact True.intro

namespace Model

/-- A constraint is added if its variables are declared, and refused otherwise. -/
lemma addConstr_settles (h : m.inst.Sound) (c : LinConstraint) :
    Settles (fun _ => True) (fun m' => m'.inst.Sound) (m.addConstr c) :=
  Settles.bind ((h.addConstr c).mapError fun _ _ => True.intro) fun _ hinst => hinst

/-- A variable that is named by a word is declared, or it is refused. -/
lemma addVar_settles (settings : Settings) (h : m.inst.Sound) (type : VarType) {name : String}
    (hname : IsWord name.toList) (value : Option Expr) :
    Settles (fun _ => True) (fun m' => m'.inst.Sound) (m.addVar settings type name value) := by
  refine Settles.bind (domain_settles settings name type) fun domain hdomain => ?_
  refine Settles.bind ((h.declare hname hdomain).mapError fun _ _ => True.intro)
    fun ⟨v, inst⟩ hinst => ?_
  cases value with
  | none => exact hinst
  | some e =>
    refine Settles.after fun rhs => ?_
    exact Settles.after fun c => addConstr_settles hinst c

/-- An item keeps the instance sound, or it is refused. -/
lemma add_settles (settings : Settings) (h : m.inst.Sound) {item : Item} (hitem : item.Named) :
    Settles (fun _ => True) (fun m' => m'.inst.Sound) (m.add settings item) := by
  unfold add
  split
  · exact True.intro
  · exact Settles.after fun _ => h
  next type name value =>
    have hword : IsWord name := hitem
    exact addVar_settles settings h type hword.ofList value
  · exact Settles.after fun _ => h
  · exact Settles.after fun _ => h
  next name args =>
    refine Settles.after fun rel => ?_
    split
    · refine Settles.after fun _ => ?_
      refine Settles.after fun _ => ?_
      refine Settles.after fun _ => ?_
      exact Settles.after fun c => addConstr_settles h c
    · exact True.intro
  · exact h
  next direction e =>
    refine Settles.after fun operand => ?_
    split
    · exact True.intro
    next v =>
      exact Settles.bind ((h.setObjective _).mapError fun _ _ => True.intro) fun _ hinst => hinst

/-- The text of an item keeps the instance sound, or it is refused. -/
lemma addText_settles (settings : Settings) (h : m.inst.Sound) (text : List Char) :
    Settles (fun f => f.refusal.IsOrdinary) (fun m' => m'.inst.Sound)
      (m.addText settings text) := by
  refine Settles.imp (E := fun _ => True) ?_ (fun f _ => isOrdinary_refusal f) fun _ h => h
  simp only [addText]
  split
  · exact h
  · split
    · exact True.intro
    · refine Settles.bind ((read_settles (trim text)).mapError fun _ _ => True.intro) ?_
      exact fun item hitem => add_settles settings h hitem

/-- The items of a model keep the instance sound, or one of them is refused where it begins. -/
lemma addAll_settles (settings : Settings) (h : m.inst.Sound)
    {items : List (Position × List Char)} (hitems : ∀ x ∈ items, 1 ≤ x.1.line) :
    Settles ReadError.IsRefusal (fun m' => m'.inst.Sound) (m.addAll settings items) :=
  Settles.foldlM h fun x hx _ hm' =>
    (addText_settles settings hm' x.2).report (hitems x hx)

end Model

/-! ## Positions -/

/-- A place of the text lies on one of its lines, the first of which starts at its beginning. -/
lemma locate_settles {starts : List ℕ} (h : starts.head? = some 0) (base : Position)
    (offset : ℕ) :
    Settles (fun _ => False) (fun pos => base.line ≤ pos.line) (locate starts base offset) := by
  cases starts with
  | nil => cases h
  | cons start starts =>
    obtain rfl := Option.some.inj h
    rw [locate, List.takeWhile_cons_of_pos (by simp), List.length_cons]
    exact Nat.le_add_right ..

/-- Items begin on lines, and a text that ends within an item is refused where the item begins. -/
lemma splitItems_settles {starts : List ℕ} (h : starts.head? = some 0) {base : Position}
    (hbase : 1 ≤ base.line) (cs : List Char) :
    Settles ReadError.IsRefusal (fun items => ∀ x ∈ items, 1 ≤ x.1.line)
      (splitItems starts base cs) := by
  have hlocate : ∀ offset, Settles ReadError.IsRefusal (fun pos => 1 ≤ pos.line)
      (base.report Refusal.defect (locate starts base offset)) := fun offset =>
    ((locate_settles h base offset).mono fun _ hpos => hbase.trans hpos).mapError
      fun _ he => he.elim
  simp only [splitItems]
  generalize Splitter.items {} cs = r
  obtain ⟨items, unterminated⟩ := r
  refine Settles.bind (Settles.mapM (Q := fun x => 1 ≤ x.1.line) fun x _ => ?_)
    fun items hitems => ?_
  · exact Settles.bind (hlocate x.1) fun pos hpos => hpos
  · cases unterminated with
    | none => exact hitems
    | some offset =>
      refine Settles.bind (hlocate offset) fun pos hpos => ⟨hpos, ?_⟩
      exact isOrdinary_refusal .unterminated

/-! ## Streams -/

/-- The table of the lines begins at the beginning of the text. -/
def Lines.Valid (l : Lines) : Prop :=
  l.table.head? = some 0 ∧ (l.starts = [] → l.text = "")

/-- A line that is appended starts where the text ended. -/
lemma Lines.Valid.add {l : Lines} (h : l.Valid) (line : String) : (l.add line).Valid := by
  obtain ⟨htable, hempty⟩ := h
  refine ⟨?_, nofun⟩
  unfold Lines.table Lines.add at *
  cases hstarts : l.starts with
  | nil =>
    rw [hempty hstarts]
    rfl
  | cons start starts =>
    rw [hstarts] at htable
    simp only [List.isEmpty_cons, Bool.false_eq_true, if_false, List.reverse_cons] at htable ⊢
    rw [List.head?_append, htable]
    rfl

/-- A text is read as a sound instance, or it is refused for one of its items or for the goal that
it lacks. -/
lemma decodeText_settles (settings : Settings) {base ending : Position} (hbase : 1 ≤ base.line)
    (hending : 1 ≤ ending.line) {starts : List ℕ} (h : starts.head? = some 0) (cs : List Char) :
    Settles ReadError.IsRefusal Instance.Sound (decodeText settings base ending starts cs) := by
  have hempty : Instance.Sound {} := Instance.sound_empty (by simp)
  refine Settles.bind (splitItems_settles h hbase cs) fun items hitems => ?_
  refine Settles.bind (Model.addAll_settles settings (m := {}) hempty hitems) fun m hm => ?_
  split
  · exact hm
  · exact ⟨hending, isOrdinary_refusal .noGoal⟩

/-- What the reader does with a line. -/
def step (l : Lines) (_ : Position) (line : String) :
    Except ReadError (InputStream.LineStep Lines) :=
  .ok (.more (l.add line))

/-- The instance is that of the text that the lines make up. -/
lemma decode_eq (settings : Settings) (input : InputStream) :
    decode settings input = input.readThrough step {} fun base r ending =>
      decodeText settings base ending r.1.table r.1.text.toList := by
  unfold decode InputStream.readThrough
  delta step
  dsimp only
  generalize InputStream.foldLines _ ({} : Lines) input.position input = r
  obtain ⟨outcome, input'⟩ := r
  cases outcome <;> rfl

lemma uniform_decode (settings : Settings) : InputStream.Uniform (decode settings) := by
  rw [funext (decode_eq settings)]
  exact InputStream.uniform_readThrough _ _ _

/-- A stream is read as a sound instance, or it is refused for what stands on one of its lines. -/
lemma reading_decode (settings : Settings) (input : InputStream) :
    InputStream.Reading Instance.Sound input (decode settings input) := by
  have hstep : ∀ (l : Lines) (pos : Position) (line : String), l.Valid → 1 ≤ pos.line →
      InputStream.IsLine line.toList → Settles ReadError.IsRefusal
        (InputStream.LineStep.LeadsTo Lines.Valid Lines.Valid) (step l pos line) :=
    fun l pos line hl _ _ => hl.add line
  rw [decode_eq]
  refine InputStream.reading_readThrough hstep (fun base r ending hbase hending hr _ => ?_)
    ⟨rfl, fun _ => rfl⟩ input
  exact decodeText_settles settings hbase hending (or_self_iff.1 hr).1 r.1.text.toList

end LinearInterchange.FlatZinc
