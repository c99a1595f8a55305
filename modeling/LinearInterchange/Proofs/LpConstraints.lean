import LinearInterchange.Format.Lp.Reader
import LinearInterchange.Proofs.PrintedCoefficients
import LinearInterchange.Proofs.TableColumns
import Mathlib.Logic.Function.Iterate

/-!
# The grammar of constraints in the LP format

The constraints of a file have no marks between them: where one ends and the next one begins is seen
from the tokens alone.  This file tells what a list of constraints looks like as tokens, and what it
says.  The reader accepts the tokens of its section exactly if they are such a list, and takes from
them what the list says, one constraint for each statement (`Model.flush_constraints`).

A term is told from the next statement by the token after its name: a label has a colon there, and
no term has.  Every token belongs to one term, label or comparison, so the reader comes to an end on
every list of tokens.
-/

namespace LinearInterchange.Lp

open Text Table Columns

variable {cols cols' : Columns} {ts ts' : Tokens} {pos ending : Position}

/-! ## Statements as they are written -/

/-- A term as it is written: signs, a number that may be left out, and a name. -/
structure TermText where
  signs : List Bool
  number : Option (List Char)
  name : List Char

/-- A constraint as it is written: a label that may be left out, terms, a comparison, signs and a
number. -/
structure StatementText where
  label : Option (List Char)
  terms : List TermText
  rel : Relation
  signs : List Bool
  number : List Char

/-- The signs change the sign of what follows: there is an odd number of minuses among them. -/
def negates (signs : List Bool) : Bool :=
  signs.foldr (· != ·) false

@[simp] lemma negates_nil : negates [] = false := rfl

@[simp] lemma negates_cons (s : Bool) (ss : List Bool) :
    negates (s :: ss) = (s != negates ss) := rfl

/-- The token denotes a coefficient. -/
def Converts (number : List Char) : Prop :=
  ∃ c, Coeff.read number = .ok c

/-- The coefficient is what the number denotes, with its sign changed once for each minus. -/
def Weighs (signs : List Bool) (number : List Char) (c : Coeff) : Prop :=
  ∃ c₀, Coeff.read number = .ok c₀ ∧ c = Coeff.neg^[signs.count true] c₀

namespace TermText

/-- The tokens of a term. -/
def tokens (t : TermText) : List Token :=
  t.signs.map .sign ++ (t.number.toList.map .num ++ [.ident t.name])

/-- The coefficient of a term is that of its number, or one, with its sign changed once for each
minus. -/
def HasCoeff (t : TermText) (c : Coeff) : Prop :=
  match t.number with
  | some number => Weighs t.signs number c
  | none => c = Coeff.neg^[t.signs.count true] 1

/-- The entry has the column of the name and the coefficient of the term. -/
structure Says (cols : Columns) (t : TermText) (e : Entry) : Prop where
  column : cols.number? (.ofList t.name) = some e.column
  coeff : t.HasCoeff e.coeff

end TermText

namespace StatementText

/-- The tokens of a constraint. -/
def tokens (s : StatementText) : List Token :=
  s.label.toList.flatMap (fun label => [.ident label, .colon]) ++
    (s.terms.flatMap TermText.tokens ++ .rel s.rel :: (s.signs.map .sign ++ [.num s.number]))

/-- All numbers of the constraint denote coefficients. -/
structure Converts (s : StatementText) : Prop where
  terms : ∀ t ∈ s.terms, ∀ number ∈ t.number, Lp.Converts number
  number : Lp.Converts s.number

/-- The names of the columns of a constraint, in order. -/
def names (s : StatementText) : List String :=
  s.terms.map fun t => .ofList t.name

/-- The comparison has an entry for each term, in order, and the relation and the right-hand side of
the constraint. -/
structure Says (cols : Columns) (s : StatementText) (c : Comparison) : Prop where
  entries : List.Forall₂ (TermText.Says cols) s.terms c.entries
  rel : c.rel = s.rel
  rhs : Weighs s.signs s.number c.rhs

end StatementText

namespace Tokens

/-- The tokens without the places where they stand. -/
def plain (ts : Tokens) : List Token :=
  ts.map (·.1)

@[simp] lemma plain_nil : plain [] = [] := rfl

@[simp] lemma plain_cons (t : Token × Position) (ts : Tokens) : plain (t :: ts) = t.1 :: plain ts :=
  rfl

/-- Tokens that begin with a given one have it in front. -/
lemma eq_cons_of_plain {t : Token} {l : List Token} (h : plain ts = t :: l) :
    ∃ p rest, ts = (t, p) :: rest ∧ plain rest = l := by
  cases ts with
  | nil => cases h
  | cons t' rest =>
    obtain ⟨rfl, hrest⟩ := List.cons.inj h
    exact ⟨t'.2, rest, rfl, hrest⟩

end Tokens

/-! ## Signs and coefficients -/

/-- The first of the tokens is no sign. -/
def Unsigned (l : List Token) : Prop :=
  ∀ minus, l.head? ≠ some (.sign minus)

/-- A run of signs amounts to a change of sign for each minus. -/
lemma signed_signs (ss : List Bool) (c : Coeff) :
    signed (negates ss) c = Coeff.neg^[ss.count true] c := by
  induction ss with
  | nil => rfl
  | cons s ss ih =>
    cases s with
    | false => simpa using ih
    | true =>
      rw [List.count_cons_self, Function.iterate_succ_apply', ← ih, negates_cons]
      cases negates ss with
      | false => rfl
      | true => exact (Coeff.neg_neg c).symm

/-- All signs in front are taken, and nothing else. -/
lemma signs_of_plain {ss : List Bool} {l : List Token} (hl : Unsigned l)
    (h : ts.plain = ss.map .sign ++ l) :
    ∃ rest, ts.signs = (negates ss, rest) ∧ rest.plain = l := by
  induction ss generalizing ts with
  | nil =>
    rw [List.map_nil, List.nil_append] at h
    refine ⟨ts, ?_, h⟩
    unfold Tokens.signs
    split
    next minus p rest => exact absurd (by rw [← h]; rfl) (hl minus)
    next => rfl
  | cons s ss ih =>
    obtain ⟨p, ts₁, rfl, h₁⟩ := Tokens.eq_cons_of_plain h
    obtain ⟨rest, hsigns, hrest⟩ := ih h₁
    refine ⟨rest, ?_, hrest⟩
    rw [Tokens.signs, hsigns, negates_cons]

/-- What is taken as signs is a run of signs. -/
lemma exists_plain_signs (ts : Tokens) : ∃ ss : List Bool,
    ts.plain = ss.map .sign ++ ts.signs.2.plain ∧ ts.signs.1 = negates ss := by
  fun_induction Tokens.signs ts with
  | case1 minus p ts ih =>
    obtain ⟨ss, hplain, hminus⟩ := ih
    refine ⟨minus :: ss, ?_, ?_⟩
    · rw [Tokens.plain_cons, hplain]
      rfl
    · rw [hminus, negates_cons]
  | case2 ts => exact ⟨[], rfl, rfl⟩

lemma readCoeff_eq_ok {n : List Char} {c : Coeff} :
    readCoeff pos n = .ok c ↔ Coeff.read n = .ok c :=
  mapError_eq_ok

/-- What is taken as a coefficient is a number that denotes one, or nothing. -/
lemma exists_plain_coeff {c : Coeff} (h : ts.coeff.1 = .ok c) : ∃ number : Option (List Char),
    ts.plain = number.toList.map .num ++ ts.coeff.2.plain ∧ ∀ n ∈ number, Converts n := by
  unfold Tokens.coeff at h ⊢
  split at h
  next n p rest =>
    refine ⟨some n, rfl, fun n' hn' => ?_⟩
    obtain rfl := Option.some.inj hn'
    exact ⟨c, readCoeff_eq_ok.1 h⟩
  next => exact ⟨none, rfl, nofun⟩

/-! ## Terms -/

namespace TermText

variable {t : TermText}

/-- The tokens behind the signs of a term do not begin with a sign. -/
lemma unsigned (t : TermText) (l : List Token) :
    Unsigned (t.number.toList.map Token.num ++ (.ident t.name :: l)) := by
  intro minus h
  cases hn : t.number with
  | none =>
    rw [hn] at h
    cases h
  | some n =>
    rw [hn] at h
    cases h

/-- Behind its signs, a term has its coefficient and its name. -/
lemma coeff_of_plain {l : List Token}
    (h : ts.plain = t.number.toList.map .num ++ (.ident t.name :: l))
    (hconverts : ∀ number ∈ t.number, Converts number) :
    ∃ c p, ∃ rest : Tokens, ts.coeff = (.ok c, (.ident t.name, p) :: rest) ∧ rest.plain = l ∧
      t.HasCoeff (Coeff.neg^[t.signs.count true] c) := by
  unfold HasCoeff
  cases hnumber : t.number with
  | none =>
    rw [hnumber] at h
    obtain ⟨p, rest, rfl, hrest⟩ := Tokens.eq_cons_of_plain h
    exact ⟨1, p, rest, rfl, hrest, rfl⟩
  | some n =>
    rw [hnumber] at h
    obtain ⟨q, ts₁, rfl, h₁⟩ := Tokens.eq_cons_of_plain h
    obtain ⟨p, rest, rfl, hrest⟩ := Tokens.eq_cons_of_plain h₁
    obtain ⟨c, hc⟩ := hconverts n hnumber
    refine ⟨c, p, rest, ?_, hrest, c, hc, rfl⟩
    rw [Tokens.coeff, readCoeff_eq_ok.2 hc]

variable (cols ending) in
/-- **A term is read as it says.** -/
lemma readTerm_of_plain {l : List Token} (h : ts.plain = t.tokens ++ l)
    (hconverts : ∀ number ∈ t.number, Converts number) :
    ∃ p, readTerm ending cols ts = .ok p ∧ p.rest.plain = l ∧ t.Says p.cols p.value ∧
      cols.TakesUp [.ofList t.name] p.cols := by
  rw [tokens, List.append_assoc, List.append_assoc] at h
  obtain ⟨ts₁, hsigns, h₁⟩ := signs_of_plain (t.unsigned l) h
  obtain ⟨c, p, rest, hcoeff, hrest, hvalue⟩ := coeff_of_plain h₁ hconverts
  refine ⟨⟨⟨(cols.ensure (.ofList t.name) p).1, signed (negates t.signs) c⟩,
    (cols.ensure (.ofList t.name) p).2, rest⟩, ?_, hrest, ⟨?_, ?_⟩, ?_⟩
  · unfold readTerm
    rw [hsigns]
    simp only [hcoeff]
  · exact number?_ensure cols _ p
  · rwa [signed_signs]
  · exact takesUp_ensure cols _ p

/-- **What is read as a term is one.** -/
lemma exists_of_readTerm {p : Parsed Entry} (h : readTerm ending cols ts = .ok p) :
    ∃ t : TermText, ts.plain = t.tokens ++ p.rest.plain ∧ ∀ n ∈ t.number, Converts n := by
  obtain ⟨ss, hsigns, -⟩ := exists_plain_signs ts
  simp only [readTerm] at h
  split at h
  · cases h
  next c hc =>
    obtain ⟨number, hnumber, hconverts⟩ := exists_plain_coeff hc
    split at h
    next name q rest hrest =>
      obtain rfl := Except.ok.inj h
      refine ⟨⟨ss, number, name⟩, ?_, hconverts⟩
      rw [tokens, hsigns, hnumber, hrest]
      simp
    all_goals cases h

/-- Terms go on where there is a term with no colon behind its name. -/
lemma noTerm_of_plain {l : List Token} (h : ts.plain = t.tokens ++ l)
    (hl : l.head? ≠ some .colon) : ts.noTerm = false := by
  obtain ⟨signs, number, name⟩ := t
  cases signs with
  | cons s signs =>
    obtain ⟨p, rest, rfl, -⟩ := Tokens.eq_cons_of_plain h
    rfl
  | nil =>
    cases number with
    | some n =>
      obtain ⟨p, rest, rfl, -⟩ := Tokens.eq_cons_of_plain h
      rfl
    | none =>
      obtain ⟨p, rest, rfl, hrest⟩ := Tokens.eq_cons_of_plain h
      have hrest : Tokens.plain rest = l := hrest
      rw [← hrest] at hl
      cases rest with
      | nil => rfl
      | cons t' rest =>
        obtain ⟨t', q⟩ := t'
        cases t' with
        | colon => exact absurd rfl hl
        | _ => rfl

/-- Neither a term nor what follows on terms begins with a colon. -/
lemma head?_flatMap_tokens (terms : List TermText) {l : List Token} (hl : l.head? ≠ some .colon) :
    (terms.flatMap tokens ++ l).head? ≠ some .colon := by
  cases terms with
  | nil => exact hl
  | cons t terms =>
    obtain ⟨signs, number, name⟩ := t
    cases signs <;> cases number <;> simp [tokens]

/-- Terms before a comparison are not taken for a label. -/
lemma labelled_of_plain {terms : List TermText} {r : Relation} {l : List Token}
    (h : ts.plain = terms.flatMap tokens ++ .rel r :: l) : ts.labelled = false := by
  cases terms with
  | nil =>
    obtain ⟨p, rest, rfl, -⟩ := Tokens.eq_cons_of_plain h
    rfl
  | cons t terms =>
    rw [List.flatMap_cons, List.append_assoc] at h
    have hterm := noTerm_of_plain h (head?_flatMap_tokens terms (by simp))
    cases ts with
    | nil => rfl
    | cons t' ts =>
      obtain ⟨t', p⟩ := t'
      cases t' with
      | ident name => exact hterm
      | _ => rfl

variable (cols ending) in
/-- **Terms are read up to the comparison that follows, as they say.** -/
lemma readTerms_of_plain {terms : List TermText} {r : Relation} {l : List Token}
    (h : ts.plain = terms.flatMap tokens ++ .rel r :: l)
    (hconverts : ∀ t ∈ terms, ∀ number ∈ t.number, Converts number) :
    ∃ p, readTerms ending cols ts = .ok p ∧ p.rest.plain = .rel r :: l ∧
      List.Forall₂ (Says p.cols) terms p.value ∧
      cols.TakesUp (terms.map fun t => .ofList t.name) p.cols := by
  induction terms generalizing cols ts with
  | nil =>
    obtain ⟨p, rest, rfl, hrest⟩ := Tokens.eq_cons_of_plain h
    refine ⟨⟨[], cols, (.rel r, p) :: rest⟩, ?_, h, .nil, .nil cols⟩
    rw [readTerms]
    rfl
  | cons t terms ih =>
    obtain ⟨hfirst, hothers⟩ := List.forall_mem_cons.1 hconverts
    rw [List.flatMap_cons, List.append_assoc] at h
    have hterm := noTerm_of_plain h (head?_flatMap_tokens terms (by simp))
    obtain ⟨p, hp, hrest, hsays, htakes⟩ := readTerm_of_plain cols ending h hfirst
    obtain ⟨q, hq, hrest', hsays', htakes'⟩ := ih p.cols hrest hothers
    refine ⟨{ q with value := p.value :: q.value }, ?_, hrest', .cons ?_ hsays',
      htakes.append htakes'⟩
    · rw [readTerms, if_neg (by simp [hterm])]
      split
      next e he => rw [hp] at he; cases he
      next p' hp' =>
        obtain rfl := Except.ok.inj (hp.symm.trans hp')
        rw [hq]
        rfl
    -- columns that are taken up later do not change the number of this one
    · exact ⟨htakes'.number?_eq hsays.column, hsays.coeff⟩

/-- **What is read as terms is terms.** -/
lemma exists_of_readTerms {p : Parsed (List Entry)} (h : readTerms ending cols ts = .ok p) :
    ∃ terms : List TermText, ts.plain = terms.flatMap tokens ++ p.rest.plain ∧
      ∀ t ∈ terms, ∀ number ∈ t.number, Converts number := by
  fun_induction readTerms ending cols ts generalizing p with
  | case1 cols ts hnone =>
    obtain rfl := Except.ok.inj h
    exact ⟨[], rfl, List.forall_mem_nil _⟩
  | case2 cols ts hterm e he => cases h
  | case3 cols ts hterm first hfirst ih =>
    obtain ⟨q, hq, rfl⟩ := map_eq_ok.1 h
    obtain ⟨t, hplain, hconverts⟩ := exists_of_readTerm hfirst
    obtain ⟨terms, hplain', hconverts'⟩ := ih hq
    refine ⟨t :: terms, ?_, List.forall_mem_cons.2 ⟨hconverts, hconverts'⟩⟩
    rw [hplain, hplain', List.flatMap_cons, List.append_assoc]

end TermText

/-! ## Statements -/

namespace StatementText

variable {s : StatementText}

variable (ending) in
/-- A right-hand side behind a comparison is read with its signs. -/
lemma readComparison_of_plain (entries : List Entry) {l : List Token}
    (h : ts.plain = .rel s.rel :: (s.signs.map .sign ++ (.num s.number :: l)))
    (hconverts : Lp.Converts s.number) :
    ∃ rhs, ∃ rest : Tokens, readComparison ending entries ts = .ok (⟨entries, s.rel, rhs⟩, rest) ∧
      rest.plain = l ∧ Weighs s.signs s.number rhs := by
  obtain ⟨p, ts₁, rfl, h₁⟩ := Tokens.eq_cons_of_plain h
  obtain ⟨ts₂, hsigns, h₂⟩ := signs_of_plain (fun _ h => by cases h) h₁
  obtain ⟨q, rest, rfl, hrest⟩ := Tokens.eq_cons_of_plain h₂
  obtain ⟨c, hc⟩ := hconverts
  refine ⟨signed (negates s.signs) c, rest, ?_, hrest, c, hc, signed_signs _ c⟩
  simp only [readComparison, hsigns, readCoeff_eq_ok.2 hc]
  rfl

/-- What is read behind the terms of a constraint is a comparison, signs and a number. -/
lemma exists_of_readComparison {entries : List Entry} {c : Comparison} {rest : Tokens}
    (h : readComparison ending entries ts = .ok (c, rest)) :
    ∃ (r : Relation) (ss : List Bool) (number : List Char),
      ts.plain = .rel r :: (ss.map .sign ++ (.num number :: rest.plain)) ∧
        Lp.Converts number := by
  unfold readComparison at h
  split at h
  next r p ts₁ =>
    obtain ⟨ss, hss, -⟩ := exists_plain_signs ts₁
    split at h
    next minus n q rest' hsigns =>
      obtain ⟨rhs, hrhs, heq⟩ := map_eq_ok.1 h
      obtain ⟨-, rfl⟩ := Prod.mk.inj heq
      refine ⟨r, ss, n, ?_, rhs, readCoeff_eq_ok.1 hrhs⟩
      rw [Tokens.plain_cons, hss, hsigns, Tokens.plain_cons]
    next => cases h
  next => cases h

/-- A label is left out. -/
lemma dropLabel_of_plain {l : List Token} (h : ts.plain = s.tokens ++ l) :
    ts.dropLabel.plain = s.terms.flatMap TermText.tokens ++
      .rel s.rel :: (s.signs.map .sign ++ (.num s.number :: l)) := by
  rw [tokens, List.append_assoc, List.append_assoc, List.cons_append, List.append_assoc] at h
  unfold Tokens.dropLabel
  cases hlabel : s.label with
  | none =>
    rw [hlabel] at h
    rw [TermText.labelled_of_plain h]
    exact h
  | some label =>
    rw [hlabel] at h
    obtain ⟨p, ts₁, rfl, h₁⟩ := Tokens.eq_cons_of_plain h
    obtain ⟨q, ts₂, rfl, h₂⟩ := Tokens.eq_cons_of_plain h₁
    exact h₂

/-- What is left out in front is a label. -/
lemma exists_plain_dropLabel (ts : Tokens) : ∃ label : Option (List Char), ts.plain =
    label.toList.flatMap (fun label => [.ident label, .colon]) ++ ts.dropLabel.plain := by
  unfold Tokens.dropLabel
  split
  next h =>
    unfold Tokens.labelled at h
    split at h
    next label p q rest => exact ⟨some label, rfl⟩
    next => cases h
  next => exact ⟨none, rfl⟩

/-- What a constraint says does not change when other columns are taken up. -/
lemma Says.mono {c : Comparison} (h : s.Says cols c) {names : List String}
    (htakes : cols.TakesUp names cols') : s.Says cols' c where
  entries := h.entries.imp fun _ _ he => ⟨htakes.number?_eq he.column, he.coeff⟩
  rel := h.rel
  rhs := h.rhs

variable (cols ending) in
/-- **Constraints are read as they say**, one after the other. -/
lemma readConstraints_of_plain {ss : List StatementText} (h : ts.plain = ss.flatMap tokens)
    (hconverts : ∀ s ∈ ss, s.Converts) :
    ∃ cs cols', readConstraints ending cols ts = .ok (cs, cols') ∧
      List.Forall₂ (Says cols') ss cs ∧ cols.TakesUp (ss.flatMap names) cols' := by
  induction ss generalizing cols ts with
  | nil =>
    obtain rfl := List.map_eq_nil_iff.1 h
    refine ⟨[], cols, ?_, .nil, .nil cols⟩
    rw [readConstraints]
    rfl
  | cons s ss ih =>
    obtain ⟨hfirst, hothers⟩ := List.forall_mem_cons.1 hconverts
    rw [List.flatMap_cons] at h
    obtain ⟨p, hp, hrest, hentries, htakes⟩ := TermText.readTerms_of_plain cols ending
      (dropLabel_of_plain h) hfirst.terms
    obtain ⟨rhs, ts₁, hcomparison, h₁, hrhs⟩ := readComparison_of_plain ending p.value
      hrest hfirst.number
    obtain ⟨cs, cols', hcs, hsays, htakes'⟩ := ih p.cols h₁ hothers
    have hsaid : s.Says p.cols ⟨p.value, s.rel, rhs⟩ := ⟨hentries, rfl, hrhs⟩
    refine ⟨⟨p.value, s.rel, rhs⟩ :: cs, cols', ?_, .cons (hsaid.mono htakes') hsays,
      htakes.append htakes'⟩
    have hsome : ts.isEmpty = false := by
      cases ts with
      | nil => simp [tokens] at h
      | cons t ts => rfl
    rw [readConstraints, hsome, if_neg Bool.false_ne_true]
    split
    next e he => rw [hp] at he; cases he
    next p' hp' =>
      obtain rfl := Except.ok.inj (hp.symm.trans hp')
      split
      next e he => rw [hcomparison] at he; cases he
      next c' ts' hc' =>
        obtain ⟨rfl, rfl⟩ := Prod.mk.inj (Except.ok.inj (hcomparison.symm.trans hc'))
        rw [hcs]
        rfl

/-- **What is read as constraints is constraints.** -/
lemma exists_of_readConstraints {r : List Comparison × Columns}
    (h : readConstraints ending cols ts = .ok r) :
    ∃ ss : List StatementText, ts.plain = ss.flatMap tokens ∧ ∀ s ∈ ss, s.Converts := by
  fun_induction readConstraints ending cols ts generalizing r with
  | case1 cols ts hnone =>
    rw [List.isEmpty_iff] at hnone
    subst hnone
    exact ⟨[], rfl, List.forall_mem_nil _⟩
  | case2 cols ts hsome e he => cases h
  | case3 cols ts hsome p hp e he => cases h
  | case4 cols ts hsome p hp c rest hc ih =>
    obtain ⟨r', hr', -⟩ := map_eq_ok.1 h
    obtain ⟨label, hlabel⟩ := exists_plain_dropLabel ts
    obtain ⟨terms, hterms, hconverts⟩ := TermText.exists_of_readTerms hp
    obtain ⟨rel, signs, number, hcomparison, hnumber⟩ := exists_of_readComparison hc
    obtain ⟨ss, hrest, hconverts'⟩ := ih hr'
    refine ⟨⟨label, terms, rel, signs, number⟩ :: ss, ?_,
      List.forall_mem_cons.2 ⟨⟨hconverts, hnumber⟩, hconverts'⟩⟩
    rw [hlabel, hterms, hcomparison, hrest, List.flatMap_cons, tokens]
    simp

end StatementText

/-! ## Refusals -/

/-- The error refuses something at a place of the text. -/
def IsFault (e : ReadError) : Prop :=
  ∃ pos f, e = .refused pos (Fault.refusal f)

/-- A fault at a place refuses something there. -/
lemma settles_refuse {α : Type} {P : α → Prop} (pos : Position) (f : Fault) :
    Settles IsFault P (refuse pos f) :=
  ⟨pos, f, rfl⟩

lemma settles_readCoeff (pos : Position) (number : List Char) :
    Settles IsFault (fun _ => True) (readCoeff pos number) :=
  (Settles.trivial _).mapError fun fault _ => ⟨pos, .badNumber number fault, rfl⟩

/-- A term is read, or it is refused. -/
lemma settles_readTerm (ending : Position) (cols : Columns) (ts : Tokens) :
    Settles IsFault (fun _ => True) (readTerm ending cols ts) := by
  have hcoeff : Settles IsFault (fun _ => True) (Tokens.coeff ts.signs.2).1 := by
    unfold Tokens.coeff
    split
    · exact settles_readCoeff _ _
    · exact True.intro
  simp only [readTerm]
  split
  next e he => exact hcoeff.of_error he
  next c hc =>
    split
    · exact True.intro
    all_goals exact settles_refuse _ _

/-- Terms are read, or one of them is refused. -/
lemma settles_readTerms (ending : Position) (cols : Columns) (ts : Tokens) :
    Settles IsFault (fun _ => True) (readTerms ending cols ts) := by
  fun_induction readTerms ending cols ts with
  | case1 cols ts hnone => exact True.intro
  | case2 cols ts hterm e he => exact (settles_readTerm ending cols ts).of_error he
  | case3 cols ts hterm t ht ih => exact ih.map fun _ _ => True.intro

/-- What follows on terms is read, or it is refused. -/
lemma settles_readComparison (ending : Position) (entries : List Entry) (ts : Tokens) :
    Settles IsFault (fun _ => True) (readComparison ending entries ts) := by
  unfold readComparison
  split
  · split
    · exact (settles_readCoeff _ _).map fun _ _ => True.intro
    · exact settles_refuse _ _
  · exact settles_refuse _ _

/-- Constraints are read, or one of them is refused. -/
lemma settles_readConstraints (ending : Position) (cols : Columns) (ts : Tokens) :
    Settles IsFault (fun _ => True) (readConstraints ending cols ts) := by
  fun_induction readConstraints ending cols ts with
  | case1 cols ts hnone => exact True.intro
  | case2 cols ts hsome e he => exact (settles_readTerms ending cols _).of_error he
  | case3 cols ts hsome p hp e he => exact (settles_readComparison ending _ _).of_error he
  | case4 cols ts hsome p hp c rest hc ih => exact ih.map fun _ _ => True.intro

/-! ## The section -/

/-- **Constraints are accepted exactly if they follow the grammar, and then they are read as they
say.**  Whatever tokens were kept for the section of constraints, they are read if and only if they
are a list of statements whose numbers denote coefficients.  Then one comparison is added for each
statement, in order: its entries have the columns of the names and the coefficients of the terms, in
order, and its relation and right-hand side are those of the statement.  Names without a column get
one, in the order in which they first appear.  Tokens that are not read are refused at a place of
the text; there is no third case. -/
theorem Model.flush_constraints {m : Model} (hpart : m.part = .constraints) (ending : Position) :
    ((∃ m', m.flush ending = .ok m') ↔ ∃ ss : List StatementText,
      m.pending.plain = ss.flatMap StatementText.tokens ∧ ∀ s ∈ ss, s.Converts) ∧
    (∀ ss : List StatementText, m.pending.plain = ss.flatMap StatementText.tokens →
      (∀ s ∈ ss, s.Converts) → ∃ cs cols',
        m.flush ending =
          .ok { m with constrs := m.constrs ++ cs, cols := cols', pending := [] } ∧
        List.Forall₂ (StatementText.Says cols') ss cs ∧
        m.cols.TakesUp (ss.flatMap StatementText.names) cols') ∧
    ((∃ m', m.flush ending = .ok m') ∨ ∃ pos f, m.flush ending = refuse pos f) := by
  have hflush : m.flush ending = (readConstraints ending m.cols m.pending).map fun r =>
      { m with constrs := m.constrs ++ r.1, cols := r.2, pending := [] } := by
    unfold flush
    rw [hpart]
    rfl
  -- that statements are read as they say gives acceptance as well, so it is shown first
  have hread : ∀ ss : List StatementText, m.pending.plain = ss.flatMap StatementText.tokens →
      (∀ s ∈ ss, s.Converts) → ∃ cs cols',
        m.flush ending =
          .ok { m with constrs := m.constrs ++ cs, cols := cols', pending := [] } ∧
        List.Forall₂ (StatementText.Says cols') ss cs ∧
        m.cols.TakesUp (ss.flatMap StatementText.names) cols' := by
    intro ss hplain hconverts
    obtain ⟨cs, cols', hcs, hsays, htakes⟩ :=
      StatementText.readConstraints_of_plain m.cols ending hplain hconverts
    refine ⟨cs, cols', ?_, hsays, htakes⟩
    rw [hflush, hcs]
    rfl
  refine ⟨⟨?_, ?_⟩, hread, ?_⟩
  · rintro ⟨m', hm'⟩
    rw [hflush] at hm'
    obtain ⟨r, hr, -⟩ := map_eq_ok.1 hm'
    exact StatementText.exists_of_readConstraints hr
  · rintro ⟨ss, hplain, hconverts⟩
    obtain ⟨cs, cols', hm', -⟩ := hread ss hplain hconverts
    exact ⟨_, hm'⟩
  · have hsettles := settles_readConstraints ending m.cols m.pending
    cases hr : readConstraints ending m.cols m.pending with
    | ok r =>
      rw [hr] at hflush
      exact .inl ⟨_, hflush⟩
    | error e =>
      rw [hr] at hflush
      obtain ⟨pos, f, rfl⟩ := hsettles.of_error hr
      exact .inr ⟨pos, f, hflush⟩

/-- A labelled constraint on several lines, with signs before its terms and its right-hand side. -/
theorem Model.flush_constraints_labelled :
    let m : Model := {
      part := .constraints
      pending := [(.ident ['c'], ⟨3, 7⟩), (.colon, ⟨3, 7⟩), (.sign true, ⟨3, 7⟩),
        (.num ['2'], ⟨3, 7⟩), (.ident ['x'], ⟨3, 7⟩), (.sign false, ⟨4, 15⟩),
        (.ident ['y'], ⟨4, 15⟩), (.rel .ge, ⟨4, 15⟩), (.sign true, ⟨4, 15⟩),
        (.num ['3'], ⟨4, 15⟩)] }
    m.part = .constraints ∧ ∃ m', m.flush ⟨5, 24⟩ = .ok m' := by
  refine ⟨rfl, (Model.flush_constraints rfl _).1.2 ⟨[{
    label := some ['c']
    terms := [⟨[true], some ['2'], ['x']⟩, ⟨[false], none, ['y']⟩]
    rel := .ge
    signs := [true]
    number := ['3'] }], rfl, ?_⟩⟩
  have htwo : Converts ['2'] := ⟨.ofWord 2, by decide +kernel⟩
  have hthree : Converts ['3'] := ⟨.ofWord 3, by decide +kernel⟩
  refine List.forall_mem_singleton.2 ⟨?_, hthree⟩
  simp [htwo]

end LinearInterchange.Lp
