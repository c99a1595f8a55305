import LinearInterchange.Proofs.BoundMeaning
import LinearInterchange.Proofs.LpConstraints
import LinearInterchange.Proofs.LpStatements
import LinearInterchange.Proofs.ParserRelations

/-!
# Bounds in the LP format

A line of bounds is a few items: numbers, words and comparisons, each with signs before it.  This
file tells which lists of items are bounds and what they say of which column, and that the reader
finds in every line that it accepts one of these.  What it makes of the line is what `Table.bare`
describes, since the reader takes the signs before a column and before an infinity off and forgets
them.
-/

namespace LinearInterchange.Lp

open Text Text.Parser Table Columns

variable {ts : List Token} {pos : Position}

/-! ## Items -/

/-- A token with the signs before it. -/
structure Item where
  signs : List Bool
  token : Token

namespace Item

/-- The tokens of an item. -/
def tokens (i : Item) : List Token :=
  i.signs.map .sign ++ [i.token]

/-- The item is an endpoint: a number or the word for infinity, with its signs. -/
inductive Denotes : Item → Endpoint → Prop
  | number {signs : List Bool} {n : List Char} {c : Coeff} (h : Coeff.read n = .ok c) :
      Denotes ⟨signs, .num n⟩ ((Endpoint.finite c.val).signed (negates signs))
  | infinity {signs : List Bool} {word : List Char} (h : isInfinity word = true) :
      Denotes ⟨signs, .ident word⟩ ((Endpoint.infinite false).signed (negates signs))

end Item

/-- The tokens are those of the items; signs behind the last item belong to none. -/
def Spells (items : List Item) (ts : List Token) : Prop :=
  (∀ i ∈ items, ∀ minus, i.token ≠ .sign minus) ∧
    ∃ signs : List Bool, ts = items.flatMap Item.tokens ++ signs.map .sign

/-- The items are bounds of the column of a name: the column is free, or it stands between two
endpoints, or to the left or to the right of one. -/
inductive ItemsSay : List Item → List Char → List Clause → Prop
  | free {s₁ s₂ : List Bool} {x word : List Char} (hword : lower word = "free".toList) :
      ItemsSay [⟨s₁, .ident x⟩, ⟨s₂, .ident word⟩] x
        [⟨false, .ge, .infinite true⟩, ⟨false, .le, .infinite false⟩]
  | between {i j : Item} {l u : Endpoint} {s s₁ s₂ : List Bool} {x : List Char} (hl : i.Denotes l)
      (hu : j.Denotes u) :
      ItemsSay [i, ⟨s₁, .rel .le⟩, ⟨s, .ident x⟩, ⟨s₂, .rel .le⟩, j] x
        [⟨negates s, .ge, l⟩, ⟨negates s, .le, u⟩]
  | right {i : Item} {l : Endpoint} {s s₁ : List Bool} {x : List Char} {r : Relation}
      (hx : isInfinity x = false) (hl : i.Denotes l) :
      ItemsSay [⟨s, .ident x⟩, ⟨s₁, .rel r⟩, i] x [⟨negates s, r, l⟩]
  | left {i : Item} {l : Endpoint} {s s₁ : List Bool} {x : List Char} {r : Relation}
      (hl : i.Denotes l) :
      ItemsSay [i, ⟨s₁, .rel r⟩, ⟨s, .ident x⟩] x [⟨negates s, r.flip, l⟩]

/-- The tokens of a line are bounds of the column of a name. -/
def BoundSays (ts : List Token) (x : List Char) (bs : List Clause) : Prop :=
  ∃ items, Spells items ts ∧ ItemsSay items x bs

/-- A run of signs before another token is folded into one. -/
lemma foldSigns_append (minus : Bool) (ss : List Bool) {t : Token} (ht : ∀ m, t ≠ .sign m)
    (l : List Token) :
    foldSigns minus (ss.map .sign ++ t :: l) = (minus != negates ss, t) :: foldSigns false l := by
  induction ss generalizing minus with
  | nil =>
    cases t with
    | sign m => exact absurd rfl (ht m)
    | _ => simp [foldSigns]
  | cons s ss ih =>
    rw [List.map_cons, List.cons_append, foldSigns, ih, negates_cons, Bool.bne_assoc]

/-- Signs with nothing behind them are folded away. -/
lemma foldSigns_signs (minus : Bool) (ss : List Bool) : foldSigns minus (ss.map .sign) = [] := by
  induction ss generalizing minus with
  | nil => rfl
  | cons s ss ih => rw [List.map_cons, foldSigns, ih]

/-- The reader folds the tokens of items into the items. -/
lemma foldSigns_of_spells {items : List Item} (h : Spells items ts) :
    foldSigns false ts = items.map fun i => (negates i.signs, i.token) := by
  obtain ⟨hitems, signs, rfl⟩ := h
  induction items with
  | nil => exact foldSigns_signs false signs
  | cons i items ih =>
    obtain ⟨hi, hitems⟩ := List.forall_mem_cons.1 hitems
    rw [List.flatMap_cons, Item.tokens, List.append_assoc, List.append_assoc, List.singleton_append,
      foldSigns_append false _ hi, ih hitems, Bool.false_bne, List.map_cons]

/-- All tokens are those of items. -/
lemma exists_spells (ts : List Token) : ∃ items, Spells items ts := by
  induction ts with
  | nil => exact ⟨[], List.forall_mem_nil _, [], rfl⟩
  | cons t ts ih =>
    obtain ⟨items, hitems, signs, rfl⟩ := ih
    by_cases ht : ∃ minus, t = .sign minus
    · obtain ⟨minus, rfl⟩ := ht
      cases items with
      | nil => exact ⟨[], List.forall_mem_nil _, minus :: signs, rfl⟩
      | cons i items =>
        obtain ⟨hi, hitems⟩ := List.forall_mem_cons.1 hitems
        refine ⟨⟨minus :: i.signs, i.token⟩ :: items, ?_, signs, rfl⟩
        exact List.forall_mem_cons.2 ⟨hi, hitems⟩
    · have ht : ∀ minus, t ≠ .sign minus := fun minus heq => ht ⟨minus, heq⟩
      exact ⟨⟨[], t⟩ :: items, List.forall_mem_cons.2 ⟨ht, hitems⟩, signs, rfl⟩

/-! ## Values -/

/-- The opposite of a number is in range; of other tokens nothing is asked. -/
def Token.Negatable : Token → Prop
  | .num n => ∀ c, Coeff.read n = .ok c → FitsCoeff (-c.val)
  | _ => True

/-- A decimal number has no slash. -/
lemma ensures_decimalToken : Ensures (fun w => ∀ c ∈ w, (c == '/') = false) decimalToken := by
  intro cs w rest h
  obtain ⟨-, x, hx⟩ := decimalText_of_decimalToken h
  exact hx.no_slash

/-- The numbers of a line have opposites in range. -/
lemma negatable_of_scan {cs : List Char} (h : Token.scan cs = .ok ts) : ∀ t ∈ ts, t.Negatable := by
  have hnumber : Ensures (fun w => Token.Negatable (.num w)) decimalToken := by
    intro cs w rest hw c hc
    refine Coeff.fits_neg_of_read (fun hslash => ?_) hc
    exact Bool.false_ne_true (ensures_decimalToken cs w rest hw _ hslash).symm
  have hident : Ensures Token.Negatable
      (do return .ident ((← run1 Token.isIdentStart) ++ (← run Token.isIdentPart))) :=
    .after fun _ => .after fun _ => .pure True.intro
  have hnext := ensures_token (fun _ => True.intro) (fun _ => True.intro) True.intro hnumber hident
  exact (scan_of_ensures hnext cs).of_ok h

/-- The value of an endpoint is read and kept. -/
lemma Item.Denotes.isKept {i : Item} {l : Endpoint} (h : i.Denotes l) (hi : i.token.Negatable)
    {value : Option Coeff}
    (hvalue : readBoundValue pos (negates i.signs) i.token = .ok value) : l.IsKept value := by
  cases h with
  | number hread =>
    obtain ⟨c, hc, rfl⟩ := map_eq_ok.1 hvalue
    obtain rfl := Except.ok.inj (hread.symm.trans (readCoeff_eq_ok.1 hc))
    refine ⟨_, rfl, ?_⟩
    unfold signed
    split
    · exact Coeff.val_neg (hi _ hread)
    · rfl
  | infinity hword =>
    rw [readBoundValue, if_pos hword] at hvalue
    obtain rfl := Except.ok.inj hvalue
    rfl

/-- What is read as a value is an endpoint. -/
lemma exists_denotes (signs : List Bool) {minus : Bool} {t : Token} {value : Option Coeff}
    (h : readBoundValue pos minus t = .ok value) : ∃ l, Item.Denotes ⟨signs, t⟩ l := by
  unfold readBoundValue at h
  split at h
  next n =>
    obtain ⟨c, hc, -⟩ := map_eq_ok.1 h
    exact ⟨_, .number (readCoeff_eq_ok.1 hc)⟩
  next word =>
    split at h
    next hword => exact ⟨_, .infinity hword⟩
    next => cases h
  next => cases h

/-! ## Lines -/

/-- A bound on the right of a column enacts what it says. -/
lemma enacts_boundRight {b : Clause} {value : Option Coeff} (h : b.endpoint.IsKept value) :
    Enacts (boundRight value b.rel) [b] where
  keeps := keeps_boundRight value b.rel
  allows c q := by
    refine allows_of_side h ?_ ?_
    · cases b.rel <;> rfl
    · cases b.rel <;> rfl

/-- A bound on the left of a column is the flipped one on its right. -/
lemma boundLeft_eq (value : Option Coeff) (r : Relation) :
    boundLeft value r = boundRight value r.flip := by
  cases r <;> rfl

/-- Two bounds on both sides of a column enact what they say. -/
lemma enacts_sides {minus : Bool} {l u : Endpoint} {lower upper : Option Coeff}
    (hl : l.IsKept lower) (hu : u.IsKept upper) :
    Enacts ({ · with lower, upper }) [⟨minus, .ge, l⟩, ⟨minus, .le, u⟩] where
  keeps _ := ⟨rfl, rfl⟩
  allows _ _ := allows_of_sides hl hu

/-- **What is read of bounds is what they say of their column.** -/
lemma enacts_of_readBound {items : List Item} {x y : List Char} {bs : List Clause}
    {f : Column → Column} (hspells : Spells items ts) (hsay : ItemsSay items x bs)
    (hts : ∀ t ∈ ts, t.Negatable) (h : readBound pos ts = .ok (y, f)) :
    y = x ∧ Enacts f bs := by
  -- the items are told apart as the grammar does; signs in front of a number turn it round
  have hitems : ∀ i ∈ items, i.token.Negatable := by
    obtain ⟨-, signs, rfl⟩ := hspells
    intro i hi
    exact hts _ (List.mem_append_left _ (List.mem_flatMap.2 ⟨i, hi, by simp [Item.tokens]⟩))
  unfold readBound at h
  rw [foldSigns_of_spells hspells] at h
  cases hsay with
  | free hword =>
    simp only [List.map_cons, List.map_nil, if_pos hword] at h
    obtain ⟨rfl, rfl⟩ := Prod.mk.inj (Except.ok.inj h)
    exact ⟨rfl, enacts_sides rfl rfl⟩
  | between hl hu =>
    rename_i i j l u s s₁ s₂
    have hbind : (do
        let lower ← readBoundValue pos (negates i.signs) i.token
        let upper ← readBoundValue pos (negates j.signs) j.token
        return (x, fun c : Column => { c with lower, upper })) = .ok (y, f) := by
      cases hl <;> exact h
    obtain ⟨lower, hlower, h⟩ := bind_eq_ok.1 hbind
    obtain ⟨upper, hupper, h⟩ := bind_eq_ok.1 h
    obtain ⟨rfl, rfl⟩ := Prod.mk.inj (Except.ok.inj h)
    have hi := hl.isKept (hitems i (by simp)) hlower
    have hj := hu.isKept (hitems j (by simp)) hupper
    exact ⟨rfl, enacts_sides hi hj⟩
  | right hx hl =>
    rename_i i l s s₁ r
    have hbind : (do return (x, boundRight (← readBoundValue pos (negates i.signs) i.token) r)) =
        .ok (y, f) := by
      simpa only [List.map_cons, List.map_nil, hx, Bool.false_eq_true, if_false] using h
    obtain ⟨value, hvalue, h⟩ := bind_eq_ok.1 hbind
    obtain ⟨rfl, rfl⟩ := Prod.mk.inj (Except.ok.inj h)
    have hi := hl.isKept (hitems i (by simp)) hvalue
    exact ⟨rfl, enacts_boundRight (b := ⟨negates s, r, l⟩) hi⟩
  | left hl =>
    rename_i i l s s₁ r
    have hbind : (do return (x, boundLeft (← readBoundValue pos (negates i.signs) i.token) r)) =
        .ok (y, f) := by
      cases hl with
      | number hread => simpa only [List.map_cons, List.map_nil] using h
      | infinity hword => simpa only [List.map_cons, List.map_nil, hword, if_true] using h
    obtain ⟨value, hvalue, h⟩ := bind_eq_ok.1 hbind
    obtain ⟨rfl, rfl⟩ := Prod.mk.inj (Except.ok.inj h)
    have hi := hl.isKept (hitems i (by simp)) hvalue
    rw [boundLeft_eq]
    exact ⟨rfl, enacts_boundRight (b := ⟨negates s, r.flip, l⟩) hi⟩

/-- Items with a given one in front once their signs are folded have it there. -/
lemma eq_cons_of_folded {items : List Item} {minus : Bool} {t : Token} {l : List (Bool × Token)}
    (h : items.map (fun i => (negates i.signs, i.token)) = (minus, t) :: l) :
    ∃ s rest, items = ⟨s, t⟩ :: rest ∧ negates s = minus ∧
      rest.map (fun i => (negates i.signs, i.token)) = l := by
  obtain ⟨i, rest, rfl, hi, hrest⟩ := List.map_eq_cons_iff.1 h
  obtain ⟨rfl, rfl⟩ := Prod.mk.inj hi
  exact ⟨i.signs, rest, rfl, rfl, hrest⟩

/-- Three items with given tokens once their signs are folded have these tokens. -/
lemma eq_triple_of_folded {items : List Item} {a b c : Bool × Token}
    (h : items.map (fun i => (negates i.signs, i.token)) = [a, b, c]) :
    ∃ s₁ s₂ s₃, items = [⟨s₁, a.2⟩, ⟨s₂, b.2⟩, ⟨s₃, c.2⟩] := by
  obtain ⟨s₁, _, rfl, -, h₁⟩ := eq_cons_of_folded h
  obtain ⟨s₂, _, rfl, -, h₂⟩ := eq_cons_of_folded h₁
  obtain ⟨s₃, _, rfl, -, h₃⟩ := eq_cons_of_folded h₂
  obtain rfl := List.map_eq_nil_iff.1 h₃
  exact ⟨s₁, s₂, s₃, rfl⟩

/-- **What is read as bounds is bounds.** -/
lemma exists_say_of_readBound {items : List Item} {b : Bound} (hspells : Spells items ts)
    (h : readBound pos ts = .ok b) : ∃ x bs, ItemsSay items x bs := by
  unfold readBound at h
  rw [foldSigns_of_spells hspells] at h
  -- the patterns of the reader fix the items one by one, and each is a form of the grammar
  split at h
  next _ x _ word heq =>
    obtain ⟨s₁, _, rfl, -, h₁⟩ := eq_cons_of_folded heq
    obtain ⟨s₂, _, rfl, -, h₂⟩ := eq_cons_of_folded h₁
    obtain rfl := List.map_eq_nil_iff.1 h₂
    split at h
    next hword => exact ⟨x, _, .free hword⟩
    next => cases h
  next minusL l _ _ x _ minusU u heq =>
    obtain ⟨s₁, _, rfl, -, h₁⟩ := eq_cons_of_folded heq
    obtain ⟨s₂, _, rfl, -, h₂⟩ := eq_cons_of_folded h₁
    obtain ⟨s₃, s₄, s₅, rfl⟩ := eq_triple_of_folded h₂
    obtain ⟨lower, hlower, h⟩ := bind_eq_ok.1 h
    obtain ⟨upper, hupper, -⟩ := bind_eq_ok.1 h
    obtain ⟨l, hl⟩ := exists_denotes s₁ hlower
    obtain ⟨u, hu⟩ := exists_denotes s₅ hupper
    exact ⟨x, _, .between hl hu⟩
  next minusL x _ r minusR t heq =>
    obtain ⟨s₁, s₂, s₃, rfl⟩ := eq_triple_of_folded heq
    split at h
    next hx =>
      split at h
      next y =>
        exact ⟨y, _, .left (.infinity hx)⟩
      next => cases h
    next hx =>
      obtain ⟨value, hvalue, -⟩ := bind_eq_ok.1 h
      obtain ⟨l, hl⟩ := exists_denotes s₃ hvalue
      exact ⟨x, _, .right (Bool.eq_false_iff.2 hx) hl⟩
  next minus n _ r _ x heq =>
    obtain ⟨s₁, s₂, s₃, rfl⟩ := eq_triple_of_folded heq
    obtain ⟨value, hvalue, -⟩ := bind_eq_ok.1 h
    obtain ⟨l, hl⟩ := exists_denotes s₁ hvalue
    exact ⟨x, _, .left hl⟩
  next => cases h

/-- **A line of bounds that is accepted bounds the column that it is for.**  Its tokens are bounds
of some column, and whatever bounds of which column they are, this column is taken up and bounded
so; nothing else is changed. -/
lemma Model.bounded_of_addTokens {m m' : Model} {cs : List Char} (hpart : m.part = .bounds)
    (hcs : cs ≠ []) (h : m.addTokens pos cs = .ok m') : ∃ ts, Token.scan cs = .ok ts ∧
      (∃ x bs, BoundSays ts x bs) ∧ ∀ x bs, BoundSays ts x bs →
        (m.cols.ensure (.ofList x) pos).2.Bounded (.ofList x) bs m'.cols ∧
          m' = { m with cols := m'.cols } := by
  unfold addTokens at h
  rw [if_neg (by simpa using hcs)] at h
  split at h
  next => cases h
  next ts hts =>
    simp only [hpart] at h
    obtain ⟨⟨y, f⟩, hread, h⟩ := bind_eq_ok.1 h
    obtain ⟨items, hitems⟩ := exists_spells ts
    obtain ⟨x, bs, hsay⟩ := exists_say_of_readBound hitems hread
    refine ⟨ts, hts, ⟨x, bs, items, hitems, hsay⟩, ?_⟩
    rintro x bs ⟨items, hitems, hsay⟩
    obtain ⟨rfl, henacts⟩ := enacts_of_readBound hitems hsay (negatable_of_scan hts) hread
    unfold changeColumn at h
    obtain ⟨cols, hcols, h⟩ := bind_eq_ok.1 h
    obtain rfl := Except.ok.inj h
    exact ⟨henacts.bounded (number?_ensure m.cols _ pos) (mapError_eq_ok.1 hcols), rfl⟩

end LinearInterchange.Lp
