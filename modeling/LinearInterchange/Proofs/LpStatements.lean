import LinearInterchange.Format.Lp.Statement
import LinearInterchange.Proofs.TableColumns

/-!
# What the statements of the LP format say

The tokens of an objective or of constraints are read long after their lines, when their section
ends.  Each step takes some of them off the front, and perhaps adds a column.  So what is known of
all tokens, that their identifiers are words and that they stand on lines, stays true of those that
are left, and what is known of the columns stays true of more of them.
-/

namespace LinearInterchange.Lp

open Text Text.Parser Table Columns

variable {cols cols' : Columns} {ts ts' : Tokens} {pos ending : Position}

/-! ## Tokens -/

/-- An identifier is a word; of other tokens nothing is asked. -/
def Token.Named : Token → Prop
  | .ident name => IsWord name
  | _ => True

/-- The characters of identifiers are no white space. -/
lemma isBlank_of_isIdentStart {c : Char} (h : Token.isIdentStart c = true) : isBlank c = false := by
  rw [Token.isIdentStart, Bool.or_eq_true, List.contains_iff_mem] at h
  rcases h with h | h
  · exact isBlank_of_isAlpha h
  · have hmarks : (Token.marks.all fun c => !isBlank c) = true := by decide
    simpa using List.all_eq_true.1 hmarks c h

/-- The characters that go on with identifiers are no white space. -/
lemma isBlank_of_isIdentPart {c : Char} (h : Token.isIdentPart c = true) : isBlank c = false := by
  rw [Token.isIdentPart, Bool.or_eq_true, Bool.or_eq_true, beq_iff_eq] at h
  rcases h with (h | h) | rfl
  · exact isBlank_of_isIdentStart h
  · exact isBlank_of_isDigit h
  · decide

/-- What is to be ensured of every token is ensured if numbers and identifiers are seen to. -/
lemma ensures_token {P : Token → Prop} (hrel : ∀ r, P (.rel r)) (hsign : ∀ minus, P (.sign minus))
    (hcolon : P .colon) (hnumber : Ensures (fun w => P (.num w)) decimalToken)
    (hident : Ensures P
      (do return .ident ((← run1 Token.isIdentStart) ++ (← run Token.isIdentPart)))) :
    Ensures P Token.next := by
  have hfixed : ∀ (p : Parser Unit) (t : Token), P t → Ensures P (do p; return t) :=
    fun p t ht => .after fun _ => .pure ht
  have hdecimal : Ensures P (do return .num (← decimalToken)) := .bind hnumber fun _ hw => .pure hw
  exact (hfixed _ _ (hrel .le)).orElse <| (hfixed _ _ (hrel .ge)).orElse <|
    (hfixed _ _ (hrel .eq)).orElse <| (hfixed _ _ (hsign true)).orElse <|
    (hfixed _ _ (hsign false)).orElse <| (hfixed _ _ hcolon).orElse <| hdecimal.orElse hident

lemma ensures_next : Ensures Token.Named Token.next :=
  ensures_token (fun _ => True.intro) (fun _ => True.intro) True.intro (.trivial _)
    (.identifier (fun _ => isBlank_of_isIdentStart) (fun _ => isBlank_of_isIdentPart)
      fun _ hw => hw)

/-- What the parser ensures of a token holds of all tokens of a line. -/
lemma scan_of_ensures {P : Token → Prop} (h : Ensures P Token.next) (cs : List Char) :
    Settles (fun _ => True) (fun ts => ∀ t ∈ ts, P t) (Token.scan cs) := by
  fun_induction Token.scan cs with
  | case1 cs body hnil => exact List.forall_mem_nil _
  | case2 cs body hne hnext => exact True.intro
  | case3 cs body hne t rest hnext hlt ih =>
    exact Settles.map ih fun ts hts => List.forall_mem_cons.2 ⟨h body t rest hnext, hts⟩
  | case4 cs body hne t rest hnext hlt => exact True.intro

lemma scan_settles (cs : List Char) :
    Settles (fun _ => True) (fun ts => ∀ t ∈ ts, t.Named) (Token.scan cs) :=
  scan_of_ensures ensures_next cs

namespace Tokens

/-- Identifiers among the tokens are words, and all tokens stand on lines. -/
def Valid (ts : Tokens) : Prop :=
  ∀ t ∈ ts, t.1.Named ∧ 1 ≤ t.2.line

lemma Valid.of_suffix (h : ts.Valid) (hsuffix : ts' <:+ ts) : ts'.Valid :=
  fun t ht => h t (hsuffix.subset ht)

lemma signs_suffix (ts : Tokens) : (signs ts).2 <:+ ts := by
  fun_induction signs ts with
  | case1 minus p ts ih => exact ih.trans (List.suffix_cons ..)
  | case2 ts => exact List.suffix_refl ts

lemma coeff_suffix (ts : Tokens) : (coeff ts).2 <:+ ts := by
  unfold coeff
  split
  · exact List.suffix_cons ..
  · exact List.suffix_refl _

lemma dropLabel_suffix (ts : Tokens) : ts.dropLabel <:+ ts := by
  unfold dropLabel
  split
  · exact List.drop_suffix ..
  · exact List.suffix_refl ts

lemma Valid.line_pos (h : ts.Valid) (hending : 1 ≤ ending.line) : 1 ≤ (ts.pos ending).line := by
  cases ts with
  | nil => exact hending
  | cons t ts => exact (h t List.mem_cons_self).2

end Tokens

/-! ## Faults -/

/-- The fault is found in the text. -/
def Fault.IsOrdinary (f : Fault) : Prop :=
  f.refusal.IsOrdinary

lemma refuse_settles {α : Type} {P : α → Prop} {f : Fault} (hpos : 1 ≤ pos.line)
    (hf : f.IsOrdinary) : Settles ReadError.IsRefusal P (refuse pos f) :=
  ⟨hpos, hf⟩

lemma readCoeff_settles (hpos : 1 ≤ pos.line) (token : List Char) :
    Settles ReadError.IsRefusal (fun _ => True) (readCoeff pos token) := by
  refine Settles.report ((Settles.trivial _).imp (fun fault _ => ?_) fun _ h => h) hpos
  exact isOrdinary_number token fault

/-! ## Terms -/

/-- Some tokens were read: the columns can become variables, there are no fewer than before, the
entries are over them, and the tokens that are left are valid. -/
structure Advanced (cols : Columns) (entries : List Entry) (cols' : Columns) (rest : Tokens) :
    Prop where
  valid : cols'.Valid
  length_le : cols.length ≤ cols'.length
  covers : cols'.Covers entries
  rest : rest.Valid

/-- A coefficient at the front is a number, or it is refused as none. -/
lemma coeff_settles (hts : ts.Valid) :
    Settles ReadError.IsRefusal (fun _ => True) ts.coeff.1 := by
  unfold Tokens.coeff
  split
  next n p ts => exact readCoeff_settles (hts _ List.mem_cons_self).2 n
  next => exact True.intro

/-- A term is over a column that is there, or it is refused where it begins. -/
lemma readTerm_settles (hcols : cols.Valid) (hts : ts.Valid) (hending : 1 ≤ ending.line) :
    Settles ReadError.IsRefusal (fun p => Advanced cols [p.value] p.cols p.rest)
      (readTerm ending cols ts) := by
  have hpos := hts.line_pos hending
  have hts₁ : Tokens.Valid ts.signs.2 := hts.of_suffix ts.signs_suffix
  have hts₂ : Tokens.Valid (Tokens.coeff ts.signs.2).2 :=
    hts₁.of_suffix (Tokens.coeff_suffix _)
  have hcoeff := coeff_settles hts₁
  simp only [readTerm]
  split
  next e he => exact hcoeff.of_error he
  next c hc =>
    split
    next name p rest heq =>
      rw [heq] at hts₂
      obtain ⟨⟨hword, hline⟩, hrest⟩ := List.forall_mem_cons.1 hts₂
      obtain ⟨hlt, hvalid, hle⟩ := ensure_spec hcols (IsWord.ofList hword) hline
      exact ⟨hvalid, hle, List.forall_mem_singleton.2 hlt, hrest⟩
    next => exact refuse_settles hpos (by rintro a ⟨⟩)
    next => exact refuse_settles hpos (by rintro a ⟨⟩)
    next => exact refuse_settles hpos (by rintro a ⟨⟩)

/-- Terms are over columns that are there, or one of them is refused where it begins. -/
lemma readTerms_settles (hcols : cols.Valid) (hts : ts.Valid) (hending : 1 ≤ ending.line) :
    Settles ReadError.IsRefusal (fun p => Advanced cols p.value p.cols p.rest)
      (readTerms ending cols ts) := by
  fun_induction readTerms ending cols ts with
  | case1 cols ts hnone =>
    exact ⟨hcols, Nat.le_refl _, List.forall_mem_nil _, hts⟩
  | case2 cols ts hterm e he => exact (readTerm_settles hcols hts hending).of_error he
  | case3 cols ts hterm t ht ih =>
    have hfirst := (readTerm_settles hcols hts hending).of_ok ht
    refine Settles.map (ih hfirst.valid hfirst.rest) fun p hp => ?_
    refine ⟨hp.valid, hfirst.length_le.trans hp.length_le, ?_, hp.rest⟩
    exact List.forall_mem_cons.2 ⟨hfirst.covers.mono hp.length_le _ List.mem_cons_self, hp.covers⟩

/-! ## Objectives and constraints -/

/-- An objective is over columns that are there, or it is refused where it goes wrong. -/
lemma readObjective_settles (hcols : cols.Valid) (hts : ts.Valid) (hending : 1 ≤ ending.line) :
    Settles ReadError.IsRefusal
      (fun r => r.2.Valid ∧ cols.length ≤ r.2.length ∧ r.2.Covers r.1)
      (readObjective ending cols ts) := by
  have hterms := readTerms_settles hcols (hts.of_suffix ts.dropLabel_suffix) hending
  refine Settles.bind hterms fun p hp => ?_
  split
  · exact ⟨hp.valid, hp.length_le, hp.covers⟩
  · exact refuse_settles (hp.rest.line_pos hending) (by rintro a ⟨⟩)

/-- What follows the terms of a constraint leaves them alone, or it is refused. -/
lemma readComparison_settles {entries : List Entry} (hts : ts.Valid) (hending : 1 ≤ ending.line) :
    Settles ReadError.IsRefusal (fun r => r.1.entries = entries ∧ r.2.Valid)
      (readComparison ending entries ts) := by
  unfold readComparison
  split
  next rel p ts₁ =>
    have hts₁ : Tokens.Valid ts₁ := (List.forall_mem_cons.1 hts).2
    have hleft := hts₁.of_suffix (Tokens.signs_suffix ts₁)
    have hpos := hts₁.line_pos hending
    split
    next minus n q rest heq =>
      rw [heq] at hleft
      refine Settles.map (readCoeff_settles hpos n) fun rhs _ => ⟨rfl, ?_⟩
      exact (List.forall_mem_cons.1 hleft).2
    next => exact refuse_settles hpos (by rintro a ⟨⟩)
  next => exact refuse_settles (hts.line_pos hending) (by rintro a ⟨⟩)

/-- Constraints are over columns that are there, or one of them is refused where it goes wrong. -/
lemma readConstraints_settles (hcols : cols.Valid) (hts : ts.Valid) (hending : 1 ≤ ending.line) :
    Settles ReadError.IsRefusal
      (fun r => r.2.Valid ∧ cols.length ≤ r.2.length ∧ ∀ c ∈ r.1, r.2.Covers c.entries)
      (readConstraints ending cols ts) := by
  fun_induction readConstraints ending cols ts with
  | case1 cols ts hnone => exact ⟨hcols, Nat.le_refl _, List.forall_mem_nil _⟩
  | case2 cols ts hsome e he =>
    exact (readTerms_settles hcols (hts.of_suffix ts.dropLabel_suffix) hending).of_error he
  | case3 cols ts hsome p hp e he =>
    have hterms :=
      (readTerms_settles hcols (hts.of_suffix ts.dropLabel_suffix) hending).of_ok hp
    exact (readComparison_settles hterms.rest hending).of_error he
  | case4 cols ts hsome p hp c rest hc ih =>
    have hterms :=
      (readTerms_settles hcols (hts.of_suffix ts.dropLabel_suffix) hending).of_ok hp
    obtain ⟨hentries, hrest⟩ := (readComparison_settles hterms.rest hending).of_ok hc
    refine Settles.map (ih hterms.valid hrest) fun ⟨cs, cols'⟩ ⟨hvalid, hle, hcovers⟩ => ?_
    refine ⟨hvalid, hterms.length_le.trans hle, List.forall_mem_cons.2 ⟨?_, hcovers⟩⟩
    rw [hentries]
    exact hterms.covers.mono hle

/-! ## Bounds -/

/-- Tokens other than signs are among the tokens. -/
lemma mem_of_mem_foldSigns {ts : List Token} {minus : Bool} {x : Bool × Token}
    (h : x ∈ foldSigns minus ts) : x.2 ∈ ts := by
  fun_induction foldSigns minus ts with
  | case1 => exact absurd h List.not_mem_nil
  | case2 minus m ts ih => exact List.mem_cons_of_mem _ (ih h)
  | case3 minus t ts hsign ih =>
    rcases List.mem_cons.1 h with rfl | h
    · exact List.mem_cons_self
    · exact List.mem_cons_of_mem _ (ih h)

/-- A token is the value of a bound, or it is refused as none. -/
lemma readBoundValue_settles (hpos : 1 ≤ pos.line) (minus : Bool) (t : Token) :
    Settles ReadError.IsRefusal (fun _ => True) (readBoundValue pos minus t) := by
  unfold readBoundValue
  split
  next n => exact Settles.map (readCoeff_settles hpos n) fun _ _ => True.intro
  next word =>
    split
    · exact True.intro
    · exact refuse_settles hpos (by rintro a ⟨⟩)
  next => exact refuse_settles hpos (by rintro a ⟨⟩)

lemma keeps_boundRight (value : Option Coeff) (r : Relation) : Keeps (boundRight value r) := by
  intro c
  cases r <;> exact ⟨rfl, rfl⟩

lemma keeps_boundLeft (value : Option Coeff) (r : Relation) : Keeps (boundLeft value r) := by
  intro c
  cases r <;> exact ⟨rfl, rfl⟩

/-- A bound is for a word and keeps the name and the place of its column, or it is refused. -/
lemma readBound_settles (hpos : 1 ≤ pos.line) {ts : List Token} (hts : ∀ t ∈ ts, t.Named) :
    Settles ReadError.IsRefusal (fun b => IsWord b.1 ∧ Keeps b.2) (readBound pos ts) := by
  have hword : ∀ {x : List Char}, Token.ident x ∈ (foldSigns false ts).map (·.2) → IsWord x := by
    intro x hmem
    obtain ⟨y, hy, hyx⟩ := List.mem_map.1 hmem
    have hnamed := hts _ (mem_of_mem_foldSigns hy)
    rw [hyx] at hnamed
    exact hnamed
  unfold readBound
  split
  next minus x _ word heq =>
    split
    · exact ⟨hword (by rw [heq]; simp), fun _ => ⟨rfl, rfl⟩⟩
    · exact refuse_settles hpos (by rintro a ⟨⟩)
  next minusL l _ _ x _ minusU u heq =>
    refine Settles.bind (readBoundValue_settles hpos minusL l) fun lower _ => ?_
    refine Settles.bind (readBoundValue_settles hpos minusU u) fun upper _ => ?_
    exact ⟨hword (by rw [heq]; simp), fun _ => ⟨rfl, rfl⟩⟩
  next minusL x _ r minusR t heq =>
    split
    · split
      next y =>
        refine Settles.bind (readBoundValue_settles hpos minusL (.ident x)) fun value _ => ?_
        exact ⟨hword (by rw [heq]; simp), keeps_boundLeft value r⟩
      next => exact refuse_settles hpos (by rintro a ⟨⟩)
    · refine Settles.bind (readBoundValue_settles hpos minusR t) fun value _ => ?_
      exact ⟨hword (by rw [heq]; simp), keeps_boundRight value r⟩
  next minus n _ r _ x heq =>
    refine Settles.bind (readBoundValue_settles hpos minus (.num n)) fun value _ => ?_
    exact ⟨hword (by rw [heq]; simp), keeps_boundLeft value r⟩
  next => exact refuse_settles hpos (by rintro a ⟨⟩)

end LinearInterchange.Lp
