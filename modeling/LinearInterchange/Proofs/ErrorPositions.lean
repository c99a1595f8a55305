import LinearInterchange.Proofs.FlatZincTexts
import LinearInterchange.Proofs.LpPlaces
import LinearInterchange.Proofs.ReaderSafety
import LinearInterchange.Proofs.Resumption
import LinearInterchange.Proofs.TextPositions

/-!
# Positions of errors

Readers find errors where lines begin, where columns first appear, where items begin, and behind the
last line.  All of these are right positions of the text.  Only what makes an instance of a table is
refused at no place of the text at all, and nothing can be refused there.

A reader that has refused a part of a text goes on behind it when it is called again, so the
positions are right in all calls.
-/

namespace LinearInterchange

open Text

/-! ## Columns -/

namespace Table

variable {Q : Position → Prop} {cols : Columns} {pos : Position}

namespace Columns

/-- All columns appear in places with `Q`. -/
def Within (Q : Position → Prop) (cols : Columns) : Prop :=
  ∀ c ∈ cols, Q c.pos

/-- A column that is new appears where it is looked up. -/
lemma Within.ensure (h : cols.Within Q) (hpos : Q pos) (name : String) :
    (cols.ensure name pos).2.Within Q := by
  unfold Columns.ensure
  split
  · exact h
  · exact List.forall_mem_append.2 ⟨h, List.forall_mem_singleton.2 hpos⟩

/-- A column that is changed stays where it is. -/
lemma Within.update (h : cols.Within Q) (n : ℕ) {f : Column → Column} (hf : Keeps f) :
    Settles (fun _ => True) (Within Q) (cols.update n f) := by
  unfold Columns.update
  split
  · intro c hc
    obtain ⟨b, hb, rfl | rfl⟩ := mem_modify hc
    · exact h c hb
    · exact (hf b).2 ▸ h b hb
  · exact True.intro

end Columns

/-- What makes an instance of a table is refused where a column appears, or at no place. -/
lemma build_at (h : cols.Within Q) (settings : Settings) (name : Option String)
    (constrs : List Comparison) (direction : Direction) (objective : List Entry) :
    Settles (ReadError.At fun p => Q p ∨ p = ⟨0, 0⟩) (fun _ => True)
      (build settings name cols constrs direction objective) := by
  have hdeclare : Settles (ReadError.At fun p => Q p ∨ p = ⟨0, 0⟩) (fun _ => True)
      (cols.declareAll settings { name }) :=
    Settles.foldlM True.intro fun c hc r _ => Position.report_at (.inl (h c hc)) _ _
  exact Settles.bind hdeclare fun r _ => Position.report_at (.inr rfl) _ _

end Table

/-- Less may be said of the places of an error. -/
lemma ReadError.At.mono {Q Q' : Position → Prop} {e : ReadError} (h : e.At Q)
    (hQ : ∀ p, Q p → Q' p) : e.At Q' := by
  cases e with
  | refused pos refusal => exact fun hordinary => hQ pos (h hordinary)
  | system fault => exact True.intro

/-- An error that is found on a line is not found at no place. -/
lemma ReadError.At.of_isFounded {Q : Position → Prop} {e : ReadError}
    (h : e.At fun p => Q p ∨ p = ⟨0, 0⟩) (hfounded : e.IsFounded) : e.At Q := by
  cases e with
  | refused pos refusal =>
    intro hordinary
    rcases h hordinary with hpos | rfl
    · exact hpos
    · exact absurd hfounded.1 (by decide)
  | system fault => exact True.intro

/-- What is refused on lines only is not refused at no place. -/
lemma Settles.and_founded {α : Type} {Q : Position → Prop} {P R : α → Prop}
    {x : Except ReadError α} (h : Settles (ReadError.At fun p => Q p ∨ p = ⟨0, 0⟩) P x)
    (hfounded : Settles ReadError.IsFounded R x) : Settles (ReadError.At Q) P x := by
  cases x with
  | error e => exact ReadError.At.of_isFounded h hfounded
  | ok a => exact h

/-! ## MPS -/

namespace Mps

open Table Columns

variable {Q : Position → Prop} {m : Model} {pos : Position}

namespace Model

/-- Rows are changed without the columns. -/
lemma updateRow_cols (m : Model) (n : ℕ) (f : Row → Row) :
    Settles (fun _ => True) (fun m' => m'.cols = m.cols) (m.updateRow n f) := by
  unfold updateRow
  split
  · exact rfl
  · exact True.intro

lemma updateColumn_within (h : m.cols.Within Q) (n : ℕ) {f : Column → Column} (hf : Keeps f) :
    Settles (fun _ => True) (fun m' => m'.cols.Within Q) (m.updateColumn n f) :=
  Settles.bind ((h.update n hf).mapError fun _ _ => True.intro) fun _ hcols => hcols

/-- Rows are added without the columns. -/
lemma addRow_within (h : m.cols.Within Q) (fields : List (List Char)) :
    Settles (fun _ => True) (fun m' => m'.cols.Within Q) (m.addRow fields) := by
  unfold addRow
  split
  · refine Settles.after fun kind => ?_
    dsimp only
    split
    · exact True.intro
    · exact h
  · exact True.intro

/-- Entries are added without the columns. -/
lemma addEntry_within (h : m.cols.Within Q) (n : ℕ) (entry : List Char × List Char) :
    Settles (fun _ => True) (fun m' => m'.cols.Within Q) (addEntry n m entry) := by
  refine Settles.after fun coeff => Settles.after fun k => ?_
  exact (m.updateRow_cols k _).mono fun m' hm' => hm' ▸ h

/-- The entries of a line are added without the columns. -/
lemma addEntries_within (h : m.cols.Within Q) (n : ℕ) (entries : List (List Char)) :
    Settles (fun _ => True) (fun m' => m'.cols.Within Q)
      (pairs entries >>= fun es => es.foldlM (addEntry n) m) :=
  Settles.after fun _ =>
    Settles.foldlM (Q := fun m' : Model => m'.cols.Within Q) h fun e _ _ hm' =>
      addEntry_within hm' n e

/-- A column that is new appears on its line. -/
lemma addColumn_within (h : m.cols.Within Q) (hpos : Q pos) (fields : List (List Char)) :
    Settles (fun _ => True) (fun m' => m'.cols.Within Q) (m.addColumn pos fields) := by
  unfold addColumn
  split
  next kind _ =>
    unfold mark
    split
    · exact h
    · split
      · exact h
      · exact True.intro
  next =>
    split
    next col entries _ =>
      have hensure := h.ensure hpos (String.ofList col)
      split
      · exact True.intro
      · dsimp only
        split
        · refine Settles.bind (updateColumn_within (m := { m with cols := _ }) hensure _
            fun _ => ⟨rfl, rfl⟩) fun m' hm' => ?_
          exact addEntries_within hm' _ entries
        · exact addEntries_within (m := { m with cols := _ }) hensure _ entries
    next => exact True.intro

/-- Right-hand sides are set without the columns. -/
lemma addRhs_within (h : m.cols.Within Q) (fields : List (List Char)) :
    Settles (fun _ => True) (fun m' => m'.cols.Within Q) (m.addRhs fields) := by
  have hset : ∀ (m' : Model) (entry : List Char × List Char), m'.cols.Within Q →
      Settles (fun _ => True) (fun m'' => m''.cols.Within Q) (m'.setRhs entry) := by
    intro m' entry hm'
    refine Settles.after fun value => Settles.after fun k => Settles.after fun r => ?_
    split
    · split
      · exact hm'
      · exact True.intro
    · exact hm'
    · exact (m'.updateRow_cols k _).mono fun m'' hm'' => hm'' ▸ hm'
  simp only [addRhs]
  generalize (if fields.length % 2 = 1 then fields.tail else fields) = numbers
  split
  · exact True.intro
  · refine Settles.after fun es => ?_
    exact Settles.foldlM (Q := fun m'' : Model => m''.cols.Within Q) h fun e _ m' hm' =>
      hset m' e hm'

/-- Bounds change columns where they are. -/
lemma addBound_within (h : m.cols.Within Q) (fields : List (List Char)) :
    Settles (fun _ => True) (fun m' => m'.cols.Within Q) (m.addBound fields) := by
  unfold addBound
  split
  · exact True.intro
  next kind fields =>
    refine Settles.after fun ⟨col, token⟩ => ?_
    simp only
    split
    · exact True.intro
    next k _ =>
      have hset : ∀ value, Settles (fun _ => True) (fun m' => m'.cols.Within Q)
          (boundAction (upper kind) value >>= m.updateColumn k) := by
        intro value
        refine Settles.bind (P := Keeps) ?_ fun f hf => updateColumn_within h k hf
        exact (boundAction_settles (upper kind) value).imp (fun _ _ => True.intro) fun _ => id
      cases token with
      | none => exact hset none
      | some token => exact Settles.after hset

/-- Data leave columns where they are, and new ones appear on their line. -/
lemma addData_within (h : m.cols.Within Q) (hpos : Q pos) (fields : List (List Char)) :
    Settles (fun _ => True) (fun m' => m'.cols.Within Q) (m.addData pos fields) := by
  unfold addData
  split
  · exact True.intro
  · exact True.intro
  · exact True.intro
  · split
    · exact True.intro
    · exact Settles.after fun direction => h
  · exact addRow_within h fields
  · exact addColumn_within h hpos fields
  · exact addRhs_within h fields
  · exact addBound_within h fields

/-- Headers leave columns where they are. -/
lemma addHeader_within (h : m.cols.Within Q) (cs : List Char) :
    Settles (fun _ => True) (fun m' => m'.cols.Within Q) (m.addHeader cs) := by
  unfold addHeader
  generalize (splitFirst isBlank cs).getD (cs, []) = r
  obtain ⟨keyword, rest⟩ := r
  refine Settles.after fun part => ?_
  simp only
  split
  · exact h
  · exact h
  · split
    · exact h
    · exact Settles.after fun direction => h
  · split
    · exact h
    · exact True.intro

/-- A line leaves columns where they are, and new ones appear on it. -/
lemma addText_within (h : m.cols.Within Q) (hpos : Q pos) (text : String) :
    Settles (fun _ => True) (fun m' => m'.cols.Within Q) (m.addText pos text) := by
  simp only [addText]
  split
  · exact h
  · exact h
  · split
    · exact addData_within h hpos _
    · exact addHeader_within h _

end Model

/-- A text is refused at right positions. -/
lemma decode_at (settings : Table.Settings) {content : List UInt8} {s : InputStream}
    (h : s.Standing content) :
    Settles (ReadError.At (·.IsRight content)) (fun _ => True) (decode settings s).1 ∧
      (decode settings s).2.Standing content := by
  have hstep : ∀ (m : Model) (pos : Position) (text : String),
      m.cols.Within (·.IsRight content) → pos.IsRight content →
      Settles (ReadError.At fun p => p.IsRight content ∨ p = ⟨0, 0⟩)
        (InputStream.LineStep.LeadsTo (fun m => m.cols.Within (·.IsRight content))
          fun m => m.cols.Within (·.IsRight content)) (step m pos text) := by
    intro m pos text hm hpos
    refine Settles.map ((Model.addText_within hm hpos text).mapError fun _ _ _ => .inl hpos) ?_
    intro m' hm'
    split <;> exact hm'
  have hfinish : ∀ (base : Position) (r : Model × Position) (ending : Position),
      r.1.cols.Within (·.IsRight content) ∨ r.1.cols.Within (·.IsRight content) →
      r.2.IsRight content → ending.IsRight content →
      Settles (ReadError.At fun p => p.IsRight content ∨ p = ⟨0, 0⟩) (fun _ => True)
        (finish settings r.1 r.2) := by
    intro base r ending hr hlast _
    unfold finish
    split
    · exact build_at (or_self_iff.1 hr) settings _ _ _ _
    · exact Position.report_at (.inl hlast) _ _
  have hempty : Within (·.IsRight content) ({} : Model).cols := List.forall_mem_nil _
  have hread := h.readThrough hstep hfinish hempty
  rw [← decode_eq] at hread
  exact ⟨hread.1.and_founded (reading_decode settings s).settles, hread.2⟩

end Mps

/-! ## The LP format -/

section Fixing

variable (Q : Position → Prop)

open Classical in
/-- Leaves just the places with `Q` where they are. -/
noncomputable def fixing (p : Position) : Position :=
  if Q p then p else ⟨p.line + 1, p.offset⟩

variable {Q} {p : Position}

/-- The places that are left where they are have `Q`. -/
lemma fixing_eq_iff : fixing Q p = p ↔ Q p := by
  unfold fixing
  split
  next h => exact iff_of_true rfl h
  next h =>
    refine iff_of_false (fun heq => ?_) h
    exact absurd (congrArg Position.line heq) (Nat.succ_ne_self p.line)

/-- An error that stays where it is is found at a place with `Q`. -/
lemma ReadError.at_of_moved {e : ReadError} (h : e.moved (fixing Q) = e) : e.At Q := by
  cases e with
  | refused pos refusal =>
    exact fun _ => fixing_eq_iff.1 (ReadError.refused.inj h).1
  | system fault => exact True.intro

/-- What is not changed by moving places that do not have `Q` tells places with `Q` only. -/
lemma settles_of_moved {α : Type} {f : α → α} {x : Except ReadError α}
    (h : x = moved (fixing Q) f x) : Settles (ReadError.At Q) (fun a => f a = a) x := by
  cases x with
  | error e => exact ReadError.at_of_moved (Except.error.inj h).symm
  | ok a => exact (Except.ok.inj h).symm

end Fixing

namespace Lp

open Table

variable {Q : Position → Prop} {m : Model} {pos : Position}

/-- A line keeps all places in places with `Q`. -/
lemma step_at (hm : m.moved (fixing Q) = m) (hpos : Q pos) (text : String) :
    Settles (ReadError.At Q) (InputStream.LineStep.LeadsTo (fun m => m.moved (fixing Q) = m)
      fun m => m.moved (fixing Q) = m) (step m pos text) := by
  have hmoved := Model.addText_moved (g := fixing Q) m pos text
  rw [hm, fixing_eq_iff.2 hpos] at hmoved
  refine Settles.map (settles_of_moved hmoved) fun m' hm' => ?_
  split <;> exact hm'

/-- A text is refused at right positions. -/
lemma decode_at (settings : Table.Settings) {content : List UInt8} {s : InputStream}
    (h : s.Standing content) :
    Settles (ReadError.At (·.IsRight content)) (fun _ => True) (decode settings s).1 ∧
      (decode settings s).2.Standing content := by
  have hfinish : ∀ (base : Position) (r : Model × Position) (ending : Position),
      r.1.moved (fixing (·.IsRight content)) = r.1 ∨
        r.1.moved (fixing (·.IsRight content)) = r.1 →
      r.2.IsRight content → ending.IsRight content →
      Settles (ReadError.At fun p => p.IsRight content ∨ p = ⟨0, 0⟩) (fun _ => True)
        (finish settings r.1 r.2) := by
    intro base r ending hr hlast _
    have hcols : r.1.cols.Within (·.IsRight content) := by
      intro c hc
      have hsame : r.1.cols.map (Column.moved (fixing (·.IsRight content))) = r.1.cols.map id :=
        (congrArg Model.cols (or_self_iff.1 hr)).trans (List.map_id _).symm
      have hpos : fixing (·.IsRight content) c.pos = c.pos :=
        congrArg Column.pos (List.map_inj_left.1 hsame c hc)
      exact fixing_eq_iff.1 hpos
    unfold finish
    split
    · exact build_at hcols settings _ _ _ _
    · exact fun _ => .inl hlast
  have hstep : ∀ (m : Model) (pos : Position) (text : String),
      m.moved (fixing (·.IsRight content)) = m → pos.IsRight content →
      Settles (ReadError.At fun p => p.IsRight content ∨ p = ⟨0, 0⟩)
        (InputStream.LineStep.LeadsTo (fun m => m.moved (fixing (·.IsRight content)) = m)
          fun m => m.moved (fixing (·.IsRight content)) = m) (step m pos text) :=
    fun m pos text hm hpos =>
      (step_at hm hpos text).imp (fun _ he => he.mono fun _ => .inl) fun _ => id
  have hread := h.readThrough hstep hfinish (rfl : Model.moved _ {} = {})
  rw [← decode_eq] at hread
  exact ⟨hread.1.and_founded (reading_decode settings s).settles, hread.2⟩

end Lp

/-! ## The exchange format -/

/-- A text is refused at right positions. -/
lemma Exchange.decode_at {content : List UInt8} {s : InputStream} (h : s.Standing content) :
    Settles (ReadError.At (·.IsRight content)) (fun _ => True) (decode s).1 ∧
      (decode s).2.Standing content := by
  have hstep : ∀ (state : State) (pos : Position) (text : String), True → pos.IsRight content →
      Settles (ReadError.At (·.IsRight content))
        (InputStream.LineStep.LeadsTo (fun _ => True) fun _ => True) (step state pos text) :=
    fun _ _ _ _ hpos => Settles.map (Position.report_at hpos _ _) fun _ _ => True.intro
  rw [decode_eq]
  exact h.readThrough hstep (fun base r ending _ _ _ => True.intro) True.intro

/-! ## Knapsacks -/

namespace Knapsack

variable {content : List UInt8} {s : InputStream}

/-- An entry is refused at right positions. -/
lemma decodeEntry_at (h : s.Standing content) :
    Settles (ReadError.At (·.IsRight content)) (fun _ => True) (decodeEntry s).1 ∧
      (decodeEntry s).2.Standing content := by
  have hstep : ∀ (p : Progress) (pos : Position) (text : String), True → pos.IsRight content →
      Settles (ReadError.At (·.IsRight content))
        (InputStream.LineStep.LeadsTo (fun _ => True) fun _ => True) (p.addLine pos text) := by
    intro p pos text _ hpos
    refine (Position.report_at hpos _ _).mono fun next _ => ?_
    cases next <;> exact True.intro
  rw [decodeEntry_eq]
  exact h.readThrough hstep (fun base r ending _ _ hending => Position.report_at hending _ _)
    True.intro

/-- The stream stands in its text, or nothing lies ahead of it. -/
def Follows (content : List UInt8) (s : InputStream) : Prop :=
  s.Standing content ∨ s.source.rest = []

/-- White space is skipped up to the end or up to an entry. -/
lemma Follows.skipWhitespace (h : Follows content s) :
    s.skipWhitespace.1 = true ∧ s.skipWhitespace.2.source.rest = [] ∨
      s.skipWhitespace.1 = false ∧ s.skipWhitespace.2.Standing content := by
  obtain ⟨-, -, hend, hrest⟩ := s.source.skipRun_spec
  cases hended : s.skipWhitespace.1 with
  | true => exact .inl ⟨rfl, hrest.trans (List.isEmpty_iff.1 (hend.symm.trans hended))⟩
  | false =>
    rcases h with h | hnil
    · exact .inr ⟨rfl, h.skipWhitespace hended⟩
    · rw [hnil] at hend
      exact absurd (hended.symm.trans hend) (by decide)

/-- The next entry is refused at right positions. -/
lemma decodeNext_at (h : Follows content s) :
    Settles (ReadError.At (·.IsRight content)) (fun _ => True) (decodeNext s).1 ∧
      Follows content (decodeNext s).2 := by
  have hskip := h.skipWhitespace
  unfold decodeNext
  split
  next s₁ heq =>
    rw [heq] at hskip
    rcases hskip with ⟨-, hrest⟩ | ⟨hopen, -⟩
    · exact ⟨True.intro, .inr hrest⟩
    · cases hopen
  next s₁ heq =>
    rw [heq] at hskip
    rcases hskip with ⟨hended, -⟩ | ⟨-, hs₁⟩
    · cases hended
    · have hentry := decodeEntry_at hs₁
      split
      next e s₂ heq₂ =>
        rw [heq₂] at hentry
        exact ⟨hentry.1, .inl hentry.2⟩
      next k s₂ heq₂ =>
        rw [heq₂] at hentry
        refine ⟨True.intro, ?_⟩
        have hskipped := Follows.skipWhitespace (.inl hentry.2)
        exact hskipped.elim (fun hs => .inr hs.2) fun hs => .inl hs.2

end Knapsack

/-- A text of knapsacks is refused at right positions. -/
lemma InputFormat.knapsack_at {content : List UInt8} {s : InputStream}
    (h : Knapsack.Follows content s) :
    Settles (ReadError.At (·.IsRight content)) (fun _ => True) (knapsack.decode s).1 ∧
      Knapsack.Follows content (knapsack.decode s).2 := by
  have hnext := Knapsack.decodeNext_at h
  simp only [decode]
  split
  next e s' heq =>
    rw [heq] at hnext
    exact hnext
  next c s' heq =>
    rw [heq] at hnext
    exact ⟨True.intro, hnext.2⟩
  next k c s' heq =>
    rw [heq] at hnext
    refine ⟨?_, hnext.2⟩
    -- a knapsack that makes no instance is not refused for what stands in the text
    refine Settles.map (P := fun _ => True) ?_ fun _ _ => True.intro
    cases k.toInstance with
    | error a => exact fun hordinary => absurd rfl (hordinary a)
    | ok inst => exact True.intro

/-! ## FlatZinc -/

namespace FlatZinc

open ByteSource

variable {content : List UInt8} {s : InputStream}

/-- An item that has begun has begun before the next character. -/
lemma push_lt (sp : Splitter) (c : Char) (hstart : ∀ k ∈ sp.start, k < sp.offset) :
    (sp.push c).offset = sp.offset + c.utf8Size ∧
      ∀ k ∈ (sp.push c).start, k < (sp.push c).offset := by
  have hsize := c.utf8Size_pos
  have hlater : ∀ k ∈ sp.start, k < sp.offset + c.utf8Size := fun k hk =>
    Nat.lt_of_lt_of_le (hstart k hk) (Nat.le_add_right ..)
  unfold Splitter.push
  split
  · exact ⟨rfl, hlater⟩
  · split
    · exact ⟨rfl, hlater⟩
    · refine ⟨rfl, fun k hk => ?_⟩
      cases hsp : sp.start with
      | some j =>
        rw [hsp] at hk hlater
        exact hlater k hk
      | none =>
        rw [hsp] at hk
        have hbegins : (if isBlank c then none else some sp.offset) = some k := hk
        rw [Option.ite_none_left_eq_some] at hbegins
        obtain rfl := Option.some.inj hbegins.2
        exact Nat.lt_add_of_pos_right hsize

/-- Items begin within their text. -/
lemma items_lt (sp : Splitter) (cs : List Char) (hstart : ∀ k ∈ sp.start, k < sp.offset) :
    (∀ item ∈ (sp.items cs).1, item.1 < sp.offset + (utf8 cs).length) ∧
      ∀ k ∈ (sp.items cs).2, k < sp.offset + (utf8 cs).length := by
  -- the item that is open is carried along: it begins before the offset
  induction cs generalizing sp with
  | nil => exact ⟨List.forall_mem_nil _, hstart⟩
  | cons c cs ih =>
    have hlength : (utf8 (c :: cs)).length = c.utf8Size + (utf8 cs).length := by
      rw [utf8_cons, List.length_append, String.length_utf8EncodeChar]
    have hsize := c.utf8Size_pos
    rw [hlength, ← Nat.add_assoc, Splitter.items]
    split
    next hend =>
      obtain ⟨hitems, hunterminated⟩ := ih { offset := sp.offset + c.utf8Size } nofun
      refine ⟨List.forall_mem_cons.2 ⟨?_, hitems⟩, hunterminated⟩
      cases hsp : sp.start with
      | none =>
        simp only [Option.getD_none]
        omega
      | some k =>
        have := hstart k hsp
        simp only [Option.getD_some]
        omega
    next hgo =>
      obtain ⟨hoffset, hpush⟩ := push_lt sp c hstart
      rw [← hoffset]
      exact ih (sp.push c) hpush

/-- A text is cut into items at right positions. -/
lemma splitItems_at {cs : List Char} (h : s.Standing content) (hrest : s.source.rest = utf8 cs) :
    Settles (ReadError.At (·.IsRight content)) (fun items => ∀ x ∈ items, x.1.IsRight content)
      (splitItems (linesOf cs).table s.position cs) := by
  have hlocate : ∀ j < (utf8 cs).length, Settles (ReadError.At (·.IsRight content))
      (·.IsRight content) (s.position.report Refusal.defect
        (locate (linesOf cs).table s.position j)) := by
    intro j hj
    rw [locate_table hj, ← hrest]
    exact h.isRight_ahead (hrest ▸ hj)
  obtain ⟨hitems, hunterminated⟩ := items_lt {} cs nofun
  simp only [splitItems]
  refine Settles.bind (Settles.mapM (Q := fun x => x.1.IsRight content) fun x hx => ?_)
    fun items hright => ?_
  · exact Settles.bind (hlocate x.1 (by simpa using hitems x hx)) fun pos hpos => hpos
  · split
    next => exact hright
    next k hk =>
      refine Settles.bind (hlocate k (by simpa using hunterminated k hk)) fun pos hpos => ?_
      exact fun _ => hpos

/-- A text is refused at right positions. -/
lemma decode_at (settings : Settings) (h : s.Standing content) :
    Settles (ReadError.At (·.IsRight content)) (fun _ => True) (decode settings s).1 ∧
      (decode settings s).2.Standing content := by
  have hstep : ∀ (l : Lines) (pos : Position) (line : String), True → pos.IsRight content →
      Settles (fun _ => True) (InputStream.LineStep.LeadsTo (fun _ => True) fun _ => True)
        (step l pos line) := fun _ _ _ _ _ => True.intro
  have hstream : (decode settings s).2.Standing content := by
    rw [decode_eq]
    exact (h.readThrough hstep (fun base r ending _ _ _ => Settles.trivial _) True.intro).2
  refine ⟨?_, hstream⟩
  obtain ⟨cs, hcs⟩ := h.text
  rw [decode_text settings hcs]
  refine Settles.bind (splitItems_at h hcs) fun items hitems => ?_
  have hadd : Settles (ReadError.At (·.IsRight content)) (fun _ => True)
      (Model.addAll settings {} items) :=
    Settles.foldlM True.intro fun x hx m _ => Position.report_at (hitems x hx) _ _
  refine Settles.bind hadd fun m _ => ?_
  split
  · exact True.intro
  · exact fun _ => hstream.position

end FlatZinc

/-! ## All formats -/

namespace InputFormat

variable {content : List UInt8} {s : InputStream}

/-- The only instance of a text is refused at right positions if its format sees to that. -/
lemma single_at {r : Except ReadError Instance × InputStream}
    (h : Settles (ReadError.At (·.IsRight content)) (fun _ => True) r.1 ∧ r.2.Standing content) :
    Settles (ReadError.At (·.IsRight content)) (fun _ => True) (decode.single r).1 ∧
      (decode.single r).2.Standing content :=
  ⟨h.1.map fun _ _ => True.intro, h.2⟩

/-- Between calls, a stream over a text stands in the text, or it is one of knapsacks at its end. -/
def Follows (f : InputFormat) (content : List UInt8) (s : InputStream) : Prop :=
  s.Standing content ∨ f = .knapsack ∧ s.source.rest = []

/-- Whatever the format, a text is refused at right positions, and the stream goes on behind what
was read. -/
lemma decode_at (f : InputFormat) (h : f.Follows content s) :
    Settles (ReadError.At (·.IsRight content)) (fun _ => True) (f.decode s).1 ∧
      f.Follows content (f.decode s).2 := by
  have hsingle : ∀ r : Except ReadError Instance × InputStream, f.decode s = decode.single r →
      Settles (ReadError.At (·.IsRight content)) (fun _ => True) r.1 ∧ r.2.Standing content →
      Settles (ReadError.At (·.IsRight content)) (fun _ => True) (f.decode s).1 ∧
        f.Follows content (f.decode s).2 := fun r hr hat => by
    rw [hr]
    exact ⟨(single_at hat).1, .inl (single_at hat).2⟩
  have hstands : f ≠ .knapsack → s.Standing content := fun hf =>
    h.resolve_right fun hend => hf hend.1
  cases f with
  | mps settings => exact hsingle _ rfl (Mps.decode_at settings (hstands nofun))
  | lp settings => exact hsingle _ rfl (Lp.decode_at settings (hstands nofun))
  | knapsack =>
    obtain ⟨hat, hstands'⟩ := knapsack_at (h.imp_right And.right)
    exact ⟨hat, hstands'.imp_right (And.intro rfl)⟩
  | flatZinc settings => exact hsingle _ rfl (FlatZinc.decode_at settings (hstands nofun))
  | exchange => exact hsingle _ rfl (Exchange.decode_at (hstands nofun))

end InputFormat

/-! ## Runs of a reader -/

namespace Reader

variable {content : List UInt8} {r : Reader} {s : InputStream}

/-- A call of a reader refuses a text at right positions, and the next one goes on from there. -/
lemma next_at (h : r.format.Follows content s) :
    Settles (ReadError.At (·.IsRight content)) (fun _ => True) (r.next s).1 ∧
      (r.next s).2.1.format.Follows content (r.next s).2.2 := by
  rw [format_next]
  have hdecode := r.format.decode_at h
  unfold next
  split
  · exact ⟨True.intro, h⟩
  · split
    next e s' heq =>
      rw [heq] at hdecode
      exact hdecode
    next inst cursor s' heq =>
      rw [heq] at hdecode
      exact ⟨True.intro, hdecode.2⟩

/-- Between all calls of a reader, its stream stands where it should. -/
lemma after_follows (h : r.format.Follows content s) (n : ℕ) :
    (r.after s n).1.format.Follows content (r.after s n).2 := by
  induction n with
  | zero => exact h
  | succ n ih => exact (next_at ih).2

/-- **Error positions.** What any call of a reader refuses in a text, it refuses at a position of
the text, and the line of that position is the one in which its offset lies. -/
theorem isRight_of_refused {f : InputFormat} {text : String} {seekable : Bool} {chunk n : ℕ}
    {pos : Position} {refusal : Refusal}
    (hrefused : outcome ⟨f, {}⟩ (.ofBytes (bytesOf text) seekable chunk) n =
      .error (.refused pos refusal))
    (hordinary : refusal.IsOrdinary) : pos.IsRight (bytesOf text) := by
  have hstart : (InputStream.ofBytes (bytesOf text) seekable chunk).Standing (bytesOf text) := by
    rw [bytesOf_eq_utf8]
    exact InputStream.standing_ofBytes _ seekable chunk
  have hat := (next_at (r := (after ⟨f, {}⟩ _ n).1) (after_follows (.inl hstart) n)).1
  exact hat.of_error hrefused hordinary

/-- The second entry of a text without a line feed at its end lacks its capacity.  It is refused
where the line after the last one would begin. -/
theorem isRight_of_refused_at_end :
    let text := "a\nn 0\nc 0\n-----\n\n \tb\nn 0"
    let missing := ReadError.refused ⟨8, 24⟩ (.malformed "missing capacity line")
    outcome ⟨.knapsack, {}⟩ (.ofBytes (bytesOf text) true 64) 1 = .error missing ∧
      Refusal.IsOrdinary (.malformed "missing capacity line") ∧
      Position.IsRight (bytesOf text) ⟨8, 24⟩ := by
  intro text missing
  have hrefused : outcome ⟨.knapsack, {}⟩ (.ofBytes (bytesOf text) true 64) 1 = .error missing :=
    (map_eq_error (f := fun _ => ())).1 (by decide +kernel)
  have hordinary : Refusal.IsOrdinary (.malformed "missing capacity line") := nofun
  exact ⟨hrefused, hordinary, isRight_of_refused hrefused hordinary⟩

end Reader

end LinearInterchange
