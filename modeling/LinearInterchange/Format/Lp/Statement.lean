import LinearInterchange.Format.Lp.Token
import LinearInterchange.Format.Table.Column
import LinearInterchange.Input.Number

/-! # Statements of the LP format

The tokens of an objective and of constraints may be spread over several lines. Terms are signs, a
coefficient and a variable; a statement may have a label. A variable that was not seen before
becomes a new column. -/

namespace LinearInterchange.Lp

open Text Table

/-- What the reader refuses. -/
inductive Fault where
  | badNumber (token : List Char) (fault : NumberFault)
  | constantTerm
  | unexpectedToken (t : Token)
  | afterObjective
  | noRelation
  | noRightHandSide
  | noBoundValue
  | badBound
  | unexpectedInput (text : List Char)
  | lateObjective
  | noObjective
  | noNames
  | noEnd
  | broken (a : Assumption)

/-- The wording of a fault. -/
def Fault.refusal : Fault → Refusal
  | .badNumber token fault => fault.refusal token
  | .constantTerm => .unsupported "constant term in expression"
  | .unexpectedToken t => .malformed ("unexpected token " ++ t.describe)
  | .afterObjective => .malformed "unexpected token in objective"
  | .noRelation => .malformed "expected a relational operator"
  | .noRightHandSide => .malformed "expected a numeric right-hand side"
  | .noBoundValue => .malformed "expected a bound value"
  | .badBound => .malformed "invalid bound"
  | .unexpectedInput text => .malformed ("unexpected input `" ++ String.ofList text ++ "`")
  | .lateObjective => .malformed "objective section must come first"
  | .noObjective => .malformed "expected an objective section"
  | .noNames => .malformed "expected variable names"
  | .noEnd => .malformed "missing End"
  | .broken a => .defect a

/-- Tokens with the positions of their lines. -/
abbrev Tokens := List (Token × Position)

/-- A fault at a position. -/
def refuse {α : Type} (pos : Position) (f : Fault) : Except ReadError α :=
  .error (.refused pos f.refusal)

/-- The coefficient that a token denotes. -/
def readCoeff (pos : Position) (token : List Char) : Except ReadError Coeff :=
  pos.report (fun f => (Fault.badNumber token f).refusal) (Coeff.read token)

/-- The coefficient, with the sign changed if `minus` holds. -/
def signed (minus : Bool) (c : Coeff) : Coeff :=
  if minus then c.neg else c

namespace Tokens

/-- The position of the first token, or `ending` if there is none. -/
def pos (ending : Position) (ts : Tokens) : Position :=
  ts.head?.elim ending (·.2)

/-- The tokens begin with a label. -/
def labelled : Tokens → Bool
  | (.ident _, _) :: (.colon, _) :: _ => true
  | _ => false

/-- The tokens without a label in front. -/
def dropLabel (ts : Tokens) : Tokens :=
  if ts.labelled then ts.drop 2 else ts

/-- Takes signs off the front; the value tells whether they amount to a minus. -/
def signs : Tokens → Bool × Tokens
  | (.sign minus, _) :: ts => (minus != (signs ts).1, (signs ts).2)
  | ts => (false, ts)

theorem length_signs_le (ts : Tokens) : (signs ts).2.length ≤ ts.length := by
  fun_induction signs ts with
  | case1 _ _ ts ih => simp only [List.length_cons]; omega
  | case2 => exact Nat.le_refl _

theorem length_dropLabel_le (ts : Tokens) : ts.dropLabel.length ≤ ts.length := by
  unfold dropLabel
  split <;> simp

/-- Takes a coefficient off the front, which is 1 if it is left out. -/
def coeff : Tokens → Except ReadError Coeff × Tokens
  | (.num n, p) :: ts => (readCoeff p n, ts)
  | ts => (.ok 1, ts)

theorem length_coeff_le (ts : Tokens) : (coeff ts).2.length ≤ ts.length := by
  unfold coeff
  split <;> simp

end Tokens

/-- What a part of a statement amounts to, with the columns known after it and the tokens that
follow. -/
structure Parsed (α : Type) where
  value : α
  cols : Columns
  rest : Tokens

/-- Reads a term: signs, a coefficient that may be left out, and a variable. -/
def readTerm (ending : Position) (cols : Columns) (ts : Tokens) :
    Except ReadError (Parsed Entry) :=
  let (minus, ts₁) := ts.signs
  let (coeff, ts₂) := ts₁.coeff
  match coeff with
  | .error e => .error e
  | .ok coeff =>
    match ts₂ with
    | (.ident name, p) :: rest =>
      let (n, cols) := cols.ensure (String.ofList name) p
      .ok ⟨⟨n, signed minus coeff⟩, cols, rest⟩
    | [] | (.rel _, _) :: _ => refuse (ts.pos ending) .constantTerm
    | (t, _) :: _ => refuse (ts.pos ending) (.unexpectedToken t)

/-- A term takes at least one token. -/
theorem length_rest_readTerm {ending : Position} {cols : Columns} {ts : Tokens} {p : Parsed Entry}
    (h : readTerm ending cols ts = .ok p) : p.rest.length < ts.length := by
  have h₁ := Tokens.length_signs_le ts
  have h₂ := Tokens.length_coeff_le ts.signs.2
  simp only [readTerm] at h
  split at h
  · cases h
  · split at h
    next heq =>
      obtain rfl := Except.ok.inj h
      rw [heq] at h₂
      simp only [List.length_cons] at h₂ ⊢
      omega
    all_goals simp [refuse] at h

/-- No term follows: the tokens are at their end, at a comparison or at a label. -/
def Tokens.noTerm : Tokens → Bool
  | [] => true
  | (.rel _, _) :: _ => true
  | ts => ts.labelled

/-- Reads terms up to a comparison, a label or the end. -/
def readTerms (ending : Position) (cols : Columns) (ts : Tokens) :
    Except ReadError (Parsed (List Entry)) :=
  if ts.noTerm then .ok ⟨[], cols, ts⟩
  else
    match _h : readTerm ending cols ts with
    | .error e => .error e
    | .ok t => (readTerms ending t.cols t.rest).map fun p => { p with value := t.value :: p.value }
termination_by ts.length
decreasing_by exact length_rest_readTerm _h

theorem length_rest_readTerms {ending : Position} {cols : Columns} {ts : Tokens}
    {p : Parsed (List Entry)} (h : readTerms ending cols ts = .ok p) :
    p.rest.length ≤ ts.length := by
  fun_induction readTerms ending cols ts generalizing p with
  | case1 => obtain rfl := Except.ok.inj h; exact Nat.le_refl _
  | case2 => cases h
  | case3 cols ts _ t ht ih =>
    cases hr : readTerms ending t.cols t.rest with
    | error e => rw [hr] at h; cases h
    | ok q =>
      rw [hr] at h
      obtain rfl := Except.ok.inj h
      have := length_rest_readTerm ht
      have := ih hr
      simp only
      omega

/-- Reads the objective: a label that may be left out, and terms. -/
def readObjective (ending : Position) (cols : Columns) (ts : Tokens) :
    Except ReadError (List Entry × Columns) := do
  let p ← readTerms ending cols ts.dropLabel
  if p.rest.isEmpty then return (p.value, p.cols)
  else refuse (p.rest.pos ending) .afterObjective

/-- Reads what follows the terms of a constraint: a comparison, signs and a number. -/
def readComparison (ending : Position) (entries : List Entry) (ts : Tokens) :
    Except ReadError (Comparison × Tokens) :=
  match ts with
  | (.rel rel, _) :: ts₁ =>
    match Tokens.signs ts₁ with
    | (minus, (.num n, _) :: rest) =>
      (readCoeff (Tokens.pos ending ts₁) n).map fun rhs =>
        (⟨entries, rel, signed minus rhs⟩, rest)
    | _ => refuse (Tokens.pos ending ts₁) .noRightHandSide
  | _ => refuse (ts.pos ending) .noRelation

theorem length_rest_readComparison {ending : Position} {entries : List Entry} {ts : Tokens}
    {c : Comparison × Tokens} (h : readComparison ending entries ts = .ok c) :
    c.2.length < ts.length := by
  unfold readComparison at h
  split at h
  next rel p ts₁ =>
    have h₁ := Tokens.length_signs_le ts₁
    split at h
    next m n q rest heq =>
      cases hr : readCoeff (Tokens.pos ending ts₁) n with
      | error e => rw [hr] at h; cases h
      | ok rhs =>
        rw [hr] at h
        obtain rfl := Except.ok.inj h
        rw [heq] at h₁
        simp only [List.length_cons] at h₁ ⊢
        omega
    next => cases h
  next => cases h

/-- Reads constraints, each with a label that may be left out, up to the end. -/
def readConstraints (ending : Position) (cols : Columns) (ts : Tokens) :
    Except ReadError (List Comparison × Columns) :=
  if ts.isEmpty then .ok ([], cols)
  else
    match _hp : readTerms ending cols ts.dropLabel with
    | .error e => .error e
    | .ok p =>
      match _hc : readComparison ending p.value p.rest with
      | .error e => .error e
      | .ok (c, rest) =>
        (readConstraints ending p.cols rest).map fun (cs, cols) => (c :: cs, cols)
termination_by ts.length
decreasing_by
  have h₁ := length_rest_readTerms _hp
  have h₂ := length_rest_readComparison _hc
  have h₃ := Tokens.length_dropLabel_le ts
  simp only at h₂
  omega

/-! ### Bounds -/

/-- Tokens other than signs, each with whether the signs before it amount to a minus. -/
def foldSigns (minus : Bool) : List Token → List (Bool × Token)
  | [] => []
  | .sign m :: ts => foldSigns (minus != m) ts
  | t :: ts => (minus, t) :: foldSigns false ts

/-- The word stands for an infinite bound. -/
def isInfinity (word : List Char) : Bool :=
  lower word = "inf".toList || lower word = "infinity".toList

/-- The bound that a token denotes; there is none if it is infinite. -/
def readBoundValue (pos : Position) (minus : Bool) : Token → Except ReadError (Option Coeff)
  | .num n => (readCoeff pos n).map fun c => some (signed minus c)
  | .ident word => if isInfinity word then .ok none else refuse pos .noBoundValue
  | _ => refuse pos .noBoundValue

/-- A bound: the column it is for and what it does to it. -/
abbrev Bound := List Char × (Column → Column)

/-- The effect of a bound on the right of a column. -/
def boundRight (value : Option Coeff) : Relation → Column → Column
  | .le, c => { c with upper := value }
  | .ge, c => { c with lower := value }
  | .eq, c => { c with lower := value, upper := value }

/-- The effect of a bound on the left of a column. -/
def boundLeft (value : Option Coeff) : Relation → Column → Column
  | .le, c => { c with lower := value }
  | .ge, c => { c with upper := value }
  | .eq, c => { c with lower := value, upper := value }

/-- Reads a line of bounds: a free column, bounds on both sides, or one on the right or on the
left. Signs before a column or a comparison mean nothing. -/
def readBound (pos : Position) (ts : List Token) : Except ReadError Bound :=
  match foldSigns false ts with
  | [(_, .ident x), (_, .ident word)] =>
    if lower word = "free".toList then .ok (x, ({ · with lower := none, upper := none }))
    else refuse pos .badBound
  | [(minusL, l), (_, .rel .le), (_, .ident x), (_, .rel .le), (minusU, u)] => do
    let lower ← readBoundValue pos minusL l
    let upper ← readBoundValue pos minusU u
    return (x, ({ · with lower, upper }))
  | [(minusL, .ident x), (_, .rel r), (minusR, t)] =>
    if isInfinity x then
      match t with
      | .ident y => do
        return (y, boundLeft (← readBoundValue pos minusL (.ident x)) r)
      | _ => refuse pos .badBound
    else do
      return (x, boundRight (← readBoundValue pos minusR t) r)
  | [(minus, .num n), (_, .rel r), (_, .ident x)] => do
    return (x, boundLeft (← readBoundValue pos minus (.num n)) r)
  | _ => refuse pos .badBound

end LinearInterchange.Lp
