import LinearInterchange.Proofs.FlatZincAnnotations
import LinearInterchange.Proofs.PrintedCoefficients

/-!
# Spellings of expressions

An expression of a FlatZinc model can be written in more than one way: its numbers may have a sign
and zeros in front, and within its arrays there may be any layout around elements and before the
closing bracket.  The grammar below has one class for expressions and one for lists of elements.
The parser is an ordered choice that never goes back, so a spelling is read back as soon as it can
be told by its first character and the text behind it does not go on with its last token.  Layout
behind an element always falls to the element, which leaves none to the bracket unless there are
no elements.
-/

namespace LinearInterchange

open Text Text.Parser

namespace FlatZinc

/-! ## The grammar -/

/-- The names in the expression are words other than the truth values, so that it can be written. -/
inductive Expr.IsNamed : Expr → Prop
  | bool (b : Bool) : IsNamed (.bool b)
  | int (n : Int64) : IsNamed (.int n)
  | ident {n : List Char} : IsIdent n → n ≠ "true".toList → n ≠ "false".toList →
      IsNamed (.ident n)
  | array {es : List Expr} : (∀ e ∈ es, IsNamed e) → IsNamed (.array es)

mutual

/-- The text is a spelling of the expression. -/
inductive Spells : Expr → List Char → Prop
  | bool (b : Bool) : Spells (.bool b) (toString b).toList
  | int {n : Int64} {cs : List Char} : IntegerText cs n.toInt → Spells (.int n) cs
  | ident {n : List Char} : IsIdent n → n ≠ "true".toList → n ≠ "false".toList →
      Spells (.ident n) n
  | empty {w : List Char} : w.all isLayout = true → Spells (.array []) ('[' :: (w ++ [']']))
  | array {es : List Expr} {cs : List Char} : Lists es cs →
      Spells (.array es) ('[' :: (cs ++ [']']))

/-- The text consists of spellings of the expressions, at least one, with commas between them and
with any layout around each. -/
inductive Lists : List Expr → List Char → Prop
  | last {e : Expr} {w cs v : List Char} : w.all isLayout = true → Spells e cs →
      v.all isLayout = true → Lists [e] (w ++ (cs ++ v))
  | more {e : Expr} {es : List Expr} {w cs v ds : List Char} : w.all isLayout = true →
      Spells e cs → v.all isLayout = true → Lists es ds →
      Lists (e :: es) (w ++ (cs ++ (v ++ ',' :: ds)))

end

/-- The text does not go on with the last token of a spelling of the expression. -/
def Expr.EndsBefore : Expr → List Char → Prop
  | .bool _, rest => Stops isIdentPart rest
  | .int _, rest => Stops Char.isDigit rest
  | .ident _, rest => Stops isIdentPart rest
  | .array _, _ => True

variable {e : Expr} {es : List Expr} {n w v cs ds rest : List Char} {c : Char} {depth : ℕ}

/-! ## Tokens -/

/-- Letters and underscores are no digits. -/
lemma isDigit_of_isIdentStart (h : isIdentStart c = true) : c.isDigit = false := by
  rw [isIdentStart, Bool.or_eq_true, beq_iff_eq] at h
  rcases h with halpha | rfl
  · by_contra hdigit
    have hletter := toNat_of_isAlpha halpha
    have hcode := toNat_of_isDigit (Bool.eq_true_of_not_eq_false hdigit)
    omega
  · decide

/-- The beginning of a word is none of the other characters. -/
lemma ne_of_isIdentStart {d : Char} (h : isIdentStart c = true) (hd : isIdentStart d = false) :
    c ≠ d := by
  rintro rfl
  rw [h] at hd
  cases hd

/-- A word is read as the expression that it stands for. -/
lemma exprWithin_ident (hn : IsIdent n) (hrest : Stops isIdentPart rest) :
    exprWithin (depth + 1) (n ++ rest) = some (Expr.ofIdent n, rest) := by
  have hstops : ∀ {p : Char → Bool}, (∀ c, isIdentStart c = true → p c = false) →
      Stops p (n ++ rest) := by
    intro p hp
    obtain ⟨c, m, rfl, hc⟩ := hn.exists_cons
    exact stops_cons (hp c hc)
  have hbracket : Stops (· == '[') (n ++ rest) :=
    hstops fun c hc => by simpa using ne_of_isIdentStart hc (by decide)
  have hsign : Stops (fun c => c == '+' || c == '-') (n ++ rest) := hstops fun c hc => by
    simpa using And.intro (ne_of_isIdentStart hc (by decide)) (ne_of_isIdentStart hc (by decide))
  have hdigit : Stops Char.isDigit (n ++ rest) := hstops fun c => isDigit_of_isIdentStart
  rw [exprWithin, orElse_of_eq_none (bind_of_eq_none (char_of_stops hbracket)),
    orElse_of_eq_none (bind_of_eq_none (word_of_stops hsign hdigit)),
    bind_of_eq_some (ident_append hn hrest)]
  rfl

/-- A number is read as the expression of its value. -/
lemma exprWithin_int {k : Int64} (h : IntegerText cs k.toInt) (hrest : Stops Char.isDigit rest) :
    exprWithin (depth + 1) (cs ++ rest) = some (.int k, rest) := by
  have hbracket : Stops (· == '[') (cs ++ rest) := by
    refine h.stops (fun c hc => ?_) rest
    rcases hc with hdigit | rfl | rfl
    · simpa using ne_of_isDigit hdigit (by decide)
    · decide
    · decide
  rw [exprWithin, orElse_of_eq_none (bind_of_eq_none (char_of_stops hbracket)),
    orElse_of_eq_some (bind_of_eq_some (h.word_append hrest))]

/-- A spelling does not begin with layout. -/
lemma Spells.stops (h : Spells e cs) (rest : List Char) : Stops isLayout (cs ++ rest) := by
  cases h with
  | bool b => cases b <;> exact stops_cons (by decide)
  | int h =>
    refine h.stops (fun c hc => ?_) rest
    rcases hc with hdigit | rfl | rfl
    · exact isLayout_of_isIdentPart (isIdentPart_of_isDigit hdigit)
    · decide
    · decide
  | ident h => exact h.stops rest
  | empty => exact stops_cons (by decide)
  | array => exact stops_cons (by decide)

/-- A text that does not go on with a word does not go on with any token. -/
lemma Expr.EndsBefore.of_stops (h : Stops isIdentPart rest) (e : Expr) : e.EndsBefore rest := by
  cases e with
  | bool b => exact h
  | int k => exact h.of_part fun _ => isIdentPart_of_isDigit
  | ident n => exact h
  | array es => exact True.intro

/-! ## Lists of elements -/

section Elements

variable {α : Type} {p : Parser α} {a : α}

/-- A value is read from between layout. -/
lemma padded_of_eq_some (hw : w.all isLayout = true) (hv : v.all isLayout = true)
    (hcs : Stops isLayout cs) (hrest : Stops isLayout rest) (h : p cs = some (a, v ++ rest)) :
    padded p (w ++ cs) = some (a, rest) := by
  rw [padded, bind_of_eq_some (layout_append hw hcs), bind_of_eq_some h,
    bind_of_eq_some (layout_append hv hrest)]
  rfl

lemma padded_of_eq_none (hw : w.all isLayout = true) (hcs : Stops isLayout cs) (h : p cs = none) :
    padded p (w ++ cs) = none := by
  rw [padded, bind_of_eq_some (layout_append hw hcs), bind_of_eq_none h]

end Elements

section Lists

-- Expressions are read by induction on the depth; this is the hypothesis for the depth below.
variable (hread : ∀ {e : Expr} {cs rest : List Char}, Spells e cs → cs.length < depth →
  e.EndsBefore rest → exprWithin depth (cs ++ rest) = some (e, rest))

include hread

/-- An element is read up to the comma or the bracket behind it. -/
lemma element_append (hw : w.all isLayout = true) (hcs : Spells e cs)
    (hv : v.all isLayout = true) (hlt : cs.length < depth) (hlayout : isLayout c = false)
    (hpart : isIdentPart c = false) :
    padded (exprWithin depth) (w ++ (cs ++ (v ++ c :: rest))) = some (e, c :: rest) := by
  refine padded_of_eq_some hw hv (hcs.stops _) (stops_cons hlayout) (hread hcs hlt ?_)
  exact .of_stops (stops_isIdentPart_append hv (stops_cons hpart)) e

/-- The first element is read, and after it the others, each behind a comma. -/
lemma Lists.exists_first (h : Lists es ds) (hlt : ds.length < depth) (rest : List Char) :
    ∃ e es' tail, es = e :: es' ∧ tail.length ≤ (ds ++ ']' :: rest).length ∧
      padded (exprWithin depth) (ds ++ ']' :: rest) = some (e, tail) ∧
      many (char ',' >>= fun _ => padded (exprWithin depth)) tail = some (es', ']' :: rest) := by
  induction es generalizing ds with
  | nil => cases h
  | cons e es ih =>
    cases h with
    | @last _ w cs v hw hcs hv =>
      have hcslt : cs.length < depth := by
        simp only [List.length_append] at hlt
        omega
      refine ⟨e, [], ']' :: rest, rfl, ?_, ?_, ?_⟩
      · simp only [List.length_append]
        omega
      · rw [List.append_assoc, List.append_assoc]
        exact element_append hread hw hcs hv hcslt rfl rfl
      · exact many_of_eq_none (bind_of_eq_none (char_of_stops (stops_cons rfl)))
    | @more _ _ w cs v ds hw hcs hv hds =>
      -- what is left begins with the comma, behind which the list of the other elements stands
      simp only [List.length_append, List.length_cons] at hlt
      obtain ⟨e', es', tail, rfl, hle, hfirst, hmany⟩ := ih hds (by omega)
      refine ⟨e, e' :: es', ',' :: (ds ++ ']' :: rest), rfl, ?_, ?_, ?_⟩
      · simp only [List.length_append, List.length_cons]
        omega
      · rw [List.append_assoc, List.append_assoc, List.append_assoc, List.cons_append]
        exact element_append hread hw hcs hv (by omega) rfl rfl
      · have hstep : (char ',' >>= fun _ => padded (exprWithin depth))
            (',' :: (ds ++ ']' :: rest)) = some (e', tail) := by
          rw [bind_of_eq_some (char_cons ',' _), hfirst]
        exact many_of_eq_some hstep (Nat.lt_succ_of_le hle) hmany

/-- The elements of an array are read up to the bracket. -/
lemma Lists.sepBy_append (h : Lists es ds) (hlt : ds.length < depth) (rest : List Char) :
    sepBy (char ',') (padded (exprWithin depth)) (ds ++ ']' :: rest) =
      some (es, ']' :: rest) := by
  obtain ⟨e, es', tail, rfl, -, hfirst, hmany⟩ := h.exists_first hread hlt rest
  exact sepBy_of_eq_some hfirst hmany

end Lists

/-- No expression begins with a closing bracket. -/
lemma exprWithin_closing (rest : List Char) : exprWithin depth (']' :: rest) = none := by
  cases depth with
  | zero => rfl
  | succ depth =>
    have hident : ident (']' :: rest) = none :=
      bind_of_eq_none (run1_of_stops (stops_cons rfl))
    rw [exprWithin, orElse_of_eq_none (bind_of_eq_none (char_of_stops (stops_cons rfl))),
      orElse_of_eq_none (bind_of_eq_none (word_of_stops (stops_cons rfl) (stops_cons rfl)))]
    exact bind_of_eq_none hident

/-- An array is read when its elements are and there is only layout before the bracket. -/
lemma array_of_sepBy
    (h : sepBy (char ',') (padded (exprWithin depth)) cs = some (es, w ++ ']' :: rest))
    (hw : w.all isLayout = true) :
    exprWithin (depth + 1) ('[' :: cs) = some (.array es, rest) := by
  rw [exprWithin]
  refine orElse_of_eq_some ?_
  rw [bind_of_eq_some (char_cons '[' cs), bind_of_eq_some h,
    bind_of_eq_some (layout_append hw (stops_cons rfl)), bind_of_eq_some (char_cons ']' rest)]
  rfl

/-- A spelling is read back by a parser that goes deeper than the spelling is long. -/
lemma Spells.exprWithin_append (h : Spells e cs) (hlt : cs.length < depth)
    (hrest : e.EndsBefore rest) : exprWithin depth (cs ++ rest) = some (e, rest) := by
  induction depth generalizing e cs rest with
  | zero => exact absurd hlt (Nat.not_lt_zero _)
  | succ depth ih =>
    cases h with
    | bool b =>
      cases b
      · exact exprWithin_ident (by decide) hrest
      · exact exprWithin_ident (by decide) hrest
    | int h => exact exprWithin_int h hrest
    | @ident n hn htrue hfalse =>
      rw [exprWithin_ident hn hrest, Expr.ofIdent, if_neg htrue, if_neg hfalse]
    | @empty w hw =>
      -- the elements leave the layout to the bracket
      have hnone : padded (exprWithin depth) (w ++ ']' :: rest) = none :=
        padded_of_eq_none hw (stops_cons rfl) (exprWithin_closing rest)
      rw [List.cons_append, List.append_assoc, List.singleton_append]
      exact array_of_sepBy (sepBy_of_eq_none hnone) hw
    | @array es cs hcs =>
      simp only [List.length_append, List.length_cons, List.length_nil] at hlt
      rw [List.cons_append, List.append_assoc, List.singleton_append]
      exact array_of_sepBy (w := []) (hcs.sepBy_append ih (by omega) rest) rfl

/-- Expressions with spellings can be listed. -/
lemma exists_lists (hne : es ≠ []) (h : ∀ e ∈ es, ∃ cs, Spells e cs) : ∃ ds, Lists es ds := by
  induction es with
  | nil => exact absurd rfl hne
  | cons e es ih =>
    obtain ⟨⟨cs, hcs⟩, hes⟩ := List.forall_mem_cons.1 h
    cases es with
    | nil => exact ⟨_, .last (w := []) (v := []) rfl hcs rfl⟩
    | cons e' es =>
      obtain ⟨ds, hds⟩ := ih (List.cons_ne_nil e' es) hes
      exact ⟨_, .more (w := []) (v := []) rfl hcs rfl hds⟩

/-- An expression whose names are words has a spelling. -/
lemma Expr.IsNamed.exists_spells (h : e.IsNamed) : ∃ cs, Spells e cs := by
  induction h with
  | bool b => exact ⟨_, .bool b⟩
  | int n => exact ⟨_, .int (integerText_toString n.toInt)⟩
  | ident hn htrue hfalse => exact ⟨_, .ident hn htrue hfalse⟩
  | @array es _ ih =>
    cases es with
    | nil => exact ⟨_, .empty (w := []) rfl⟩
    | cons e es =>
      obtain ⟨ds, hds⟩ := exists_lists (List.cons_ne_nil e es) ih
      exact ⟨_, .array hds⟩

/-- **Expressions are read back from their spellings.**  Every expression whose names are words can
be written, and from any spelling of an expression, with any text behind it that does not go on with
its last token, the parser reads that expression and leaves that text. -/
theorem expr_of_spelling :
    (∀ e : Expr, e.IsNamed → ∃ cs, Spells e cs) ∧
      ∀ e cs rest, Spells e cs → e.EndsBefore rest → expr (cs ++ rest) = some (e, rest) := by
  refine ⟨fun e h => h.exists_spells, fun e cs rest h hrest => ?_⟩
  refine h.exprWithin_append ?_ hrest
  rw [List.length_append]
  omega

/-- An array of a number, an empty array and a name, with layout wherever it may be. -/
theorem expr_of_spelling_nested :
    (Expr.array [.int (-2), .array [], .ident ['x']]).IsNamed ∧
      (∃ cs, Spells (.array [.int (-2), .array [], .ident ['x']]) cs) ∧
      Spells (.array [.int (-2), .array [], .ident ['x']]) "[ -2 ,[\t],\nx ]".toList ∧
      expr ("[ -2 ,[\t],\nx ]".toList ++ [';']) =
        some (.array [.int (-2), .array [], .ident ['x']], [';']) := by
  have hnamed : (Expr.array [.int (-2), .array [], .ident ['x']]).IsNamed :=
    .array (List.forall_mem_cons.2 ⟨.int _, List.forall_mem_cons.2
      ⟨.array (List.forall_mem_nil _), List.forall_mem_singleton.2
        (.ident (by decide) (by decide) (by decide))⟩⟩)
  have htext : IntegerText ['-', '2'] (-2) := by
    have hdigits : (toString (-2 : ℤ)).toList = ['-', '2'] := by decide
    exact hdigits ▸ integerText_toString (-2)
  have hint : Spells (.int (-2)) ['-', '2'] := .int htext
  have hempty : Spells (.array []) ['[', '\t', ']'] := .empty (w := ['\t']) rfl
  have hident : Spells (.ident ['x']) ['x'] := .ident (by decide) (by decide) (by decide)
  have hspells : Spells (.array [.int (-2), .array [], .ident ['x']])
      "[ -2 ,[\t],\nx ]".toList :=
    .array (.more (w := [' ']) (v := [' ']) rfl hint rfl
      (.more (w := []) (v := []) rfl hempty rfl
        (.last (w := ['\n']) (v := [' ']) rfl hident rfl)))
  exact ⟨hnamed, expr_of_spelling.1 _ hnamed, hspells,
    expr_of_spelling.2 _ _ [';'] hspells True.intro⟩

end FlatZinc

end LinearInterchange
