import LinearInterchange.Proofs.Words
import Mathlib.Data.Option.Basic

/-!
# Parsers on texts that are alike

Two texts may differ in a way that a parser does not notice: in what follows after the part that the
parser reads, say, or in the number of blanks.  Such a way is a relation between texts.  A parser
respects it (`Likens`) if on related texts it applies to both or to none of them, gives the same
value and leaves related texts.  There is one rule for each combinator, so that a parser is seen to
respect a relation by going through its parts.

For the parts themselves it is enough to know which characters have to be the same on both sides:
texts that are related agree in the next character as long as that is one of them (`Agree`).  A
repetition respects a relation only if the parser that it repeats takes something (`Takes`), since
otherwise it stops by comparing lengths.  What a parser takes is told apart from its value
(`TakesText`), again with one rule for each combinator.
-/

namespace LinearInterchange.Text.Parser

variable {α β γ δ : Type}

/-! ## Characters taken -/

/-- The parser takes at least `n` characters if it applies. -/
def Takes (n : ℕ) (p : Parser α) : Prop :=
  ∀ cs a rest, p cs = some (a, rest) → rest.length + n ≤ cs.length

namespace Takes

variable {m n : ℕ} {p q : Parser α} {f : α → Parser β}

lemma mono (hp : Takes n p) (h : m ≤ n) : Takes m p := fun cs a rest ha =>
  (Nat.add_le_add_left h _).trans (hp cs a rest ha)

lemma pure (a : α) : Takes 0 (pure a : Parser α) := by
  intro cs b rest h
  obtain ⟨-, rfl⟩ := Prod.mk.inj (Option.some.inj h)
  exact Nat.le_refl _

lemma failure : Takes n (failure : Parser α) := nofun

/-- Two parsers take what the first one takes and then what the second one takes. -/
lemma bind (hp : Takes m p) (hf : ∀ a, Takes n (f a)) : Takes (m + n) (p >>= f) := by
  intro cs b rest h
  obtain ⟨a, rest₁, ha, hb⟩ := bind_eq_some h
  have hfirst := hp cs a rest₁ ha
  have hsecond := hf a rest₁ b rest hb
  omega

lemma bind_left (hp : Takes n p) (hf : ∀ a, Takes 0 (f a)) : Takes n (p >>= f) :=
  bind hp hf

lemma bind_right (hp : Takes 0 p) (hf : ∀ a, Takes n (f a)) : Takes n (p >>= f) :=
  (bind hp hf).mono (Nat.le_add_left ..)

lemma map {g : α → β} (hp : Takes n p) : Takes n (g <$> p) := by
  intro cs b rest h
  obtain ⟨a, ha, -⟩ := map_eq_some h
  exact hp cs a rest ha

lemma orElse (hp : Takes n p) (hq : Takes n q) : Takes n (p <|> q) := by
  intro cs a rest h
  rcases orElse_eq_some h with h | h
  · exact hp cs a rest h
  · exact hq cs a rest h

/-- What is optional may take nothing. -/
lemma optional? (hp : Takes 0 p) : Takes 0 (optional? p) := by
  intro cs a rest h
  unfold Parser.optional? at h
  split at h
  next b rest₁ hb =>
    obtain ⟨-, rfl⟩ := Prod.mk.inj (Option.some.inj h)
    exact hp cs b _ hb
  next =>
    obtain ⟨-, rfl⟩ := Prod.mk.inj (Option.some.inj h)
    exact Nat.le_refl _

/-- A repetition may take nothing. -/
lemma many (p : Parser α) : Takes 0 (many p) := by
  intro cs as rest h
  have hgo : ∀ cs : List Char, (Parser.many.go p cs).2.length ≤ cs.length := by
    intro cs
    fun_induction Parser.many.go p cs with
    | case1 cs hnone => exact Nat.le_refl _
    | case2 cs a rest ha hlt ih => exact ih.trans (Nat.le_of_lt hlt)
    | case3 cs a rest ha hle => exact Nat.le_refl _
  have hrest : (Parser.many.go p cs).2 = rest := congrArg Prod.snd (Option.some.inj h)
  exact hrest ▸ hgo cs

/-- One character is taken. -/
lemma satisfy (class_ : Char → Bool) : Takes 1 (satisfy class_) := by
  intro cs a rest h
  cases cs with
  | nil => cases h
  | cons c cs =>
    rw [Parser.satisfy, Option.ite_none_right_eq_some] at h
    obtain ⟨-, rfl⟩ := Prod.mk.inj (Option.some.inj h.2)
    exact Nat.le_refl _

lemma char (c : Char) : Takes 1 (char c) :=
  map (satisfy _)

lemma literal (w : List Char) : Takes w.length (literal w) := by
  induction w with
  | nil => exact pure ()
  | cons c w ih => exact (bind (char c) fun _ => ih).mono (Nat.le_of_eq (Nat.add_comm ..))

lemma run (class_ : Char → Bool) : Takes 0 (run class_) := by
  intro cs w rest h
  obtain ⟨-, rfl⟩ := Prod.mk.inj (Option.some.inj h)
  exact (List.dropWhile_suffix _).length_le

/-- A run of at least one character takes one. -/
lemma run1 (class_ : Char → Bool) : Takes 1 (run1 class_) := by
  intro cs w rest h
  cases cs with
  | nil => cases h
  | cons c cs =>
    unfold Parser.run1 at h
    split at h
    · cases h
    next hne =>
      obtain ⟨-, rfl⟩ := Prod.mk.inj (Option.some.inj h)
      by_cases hc : class_ c = true
      · rw [List.dropWhile_cons_of_pos hc]
        exact Nat.succ_le_succ (List.dropWhile_suffix _).length_le
      · rw [List.takeWhile_cons_of_neg hc] at hne
        exact absurd rfl hne

lemma layout : Takes 0 layout :=
  map (run _)

lemma padded (hp : Takes n p) : Takes n (padded p) :=
  bind_right layout fun _ => bind_left hp fun a => bind_left layout fun _ => pure a

/-- Values with separators may be none. -/
lemma sepBy {separator : Parser Unit} (hp : Takes 0 p) : Takes 0 (sepBy separator p) := by
  refine bind_right (optional? hp) fun a => ?_
  cases a with
  | none => exact pure []
  | some a => exact bind_right (many _) fun as => pure (a :: as)

/-- A number has a digit. -/
lemma word : Takes 1 word := by
  have hsign : Takes 0 Parser.sign :=
    bind_right (optional? ((satisfy _).mono (Nat.zero_le 1))) fun s => pure _
  refine bind_right hsign fun neg => bind_left (run1 _) fun ds => ?_
  dsimp only
  generalize word? _ = w
  cases w with
  | none => exact failure
  | some w => exact pure w

end Takes

/-- The text that the parser takes has the property. -/
def TakesText (P : List Char → Prop) (p : Parser α) : Prop :=
  ∀ cs a rest, p cs = some (a, rest) → ∃ w, cs = w ++ rest ∧ P w

namespace TakesText

variable {P Q R : List Char → Prop} {p q : Parser α} {f : α → Parser β}

lemma imp (hp : TakesText P p) (h : ∀ w, P w → Q w) : TakesText Q p := by
  intro cs a rest ha
  obtain ⟨w, hw, hP⟩ := hp cs a rest ha
  exact ⟨w, hw, h w hP⟩

lemma pure (h : P []) (a : α) : TakesText P (pure a : Parser α) := by
  intro cs b rest hb
  obtain ⟨-, rfl⟩ := Prod.mk.inj (Option.some.inj hb)
  exact ⟨[], rfl, h⟩

/-- Two parsers take what the first one takes and then what the second one takes. -/
lemma bind (hp : TakesText P p) (hf : ∀ a, TakesText Q (f a))
    (h : ∀ u v, P u → Q v → R (u ++ v)) : TakesText R (p >>= f) := by
  intro cs b rest hpf
  obtain ⟨a, rest₁, ha, hb⟩ := bind_eq_some hpf
  obtain ⟨u, rfl, hu⟩ := hp cs a rest₁ ha
  obtain ⟨v, rfl, hv⟩ := hf a rest₁ b rest hb
  exact ⟨u ++ v, (List.append_assoc ..).symm, h u v hu hv⟩

lemma bind_pure (hp : TakesText P p) (g : α → β) :
    TakesText P (p >>= fun a => Pure.pure (g a)) := by
  refine .bind hp (fun a => pure (P := (· = [])) rfl (g a)) ?_
  rintro u _ hu rfl
  rwa [List.append_nil]

lemma map {g : α → β} (hp : TakesText P p) : TakesText P (g <$> p) := by
  intro cs b rest h
  obtain ⟨a, ha, -⟩ := map_eq_some h
  exact hp cs a rest ha

lemma orElse (hp : TakesText P p) (hq : TakesText P q) : TakesText P (p <|> q) := by
  intro cs a rest h
  rcases orElse_eq_some h with h | h
  · exact hp cs a rest h
  · exact hq cs a rest h

/-- What is optional takes what it would take anyway, or nothing. -/
lemma optional? (hp : TakesText P p) (hnil : P []) : TakesText P (optional? p) := by
  intro cs a rest h
  unfold Parser.optional? at h
  split at h
  next b rest₁ hb =>
    obtain ⟨-, rfl⟩ := Prod.mk.inj (Option.some.inj h)
    exact hp cs b _ hb
  next =>
    obtain ⟨-, rfl⟩ := Prod.mk.inj (Option.some.inj h)
    exact ⟨[], rfl, hnil⟩

/-- A character of a class is taken. -/
lemma satisfy {class_ : Char → Bool} (h : ∀ c, class_ c = true → P [c]) :
    TakesText P (satisfy class_) := by
  intro cs a rest hcs
  cases cs with
  | nil => cases hcs
  | cons c cs =>
    rw [Parser.satisfy, Option.ite_none_right_eq_some] at hcs
    obtain ⟨hc, heq⟩ := hcs
    obtain ⟨-, rfl⟩ := Prod.mk.inj (Option.some.inj heq)
    exact ⟨[c], rfl, h c hc⟩

lemma char (c : Char) : TakesText (· = [c]) (char c) :=
  map (satisfy fun d hd => by rw [beq_iff_eq.1 hd])

lemma run (class_ : Char → Bool) :
    TakesText (fun w => ∀ c ∈ w, class_ c = true) (run class_) := by
  intro cs w rest hcs
  obtain ⟨-, rfl⟩ := Prod.mk.inj (Option.some.inj hcs)
  exact ⟨_, List.takeWhile_append_dropWhile.symm, fun c hc => List.mem_takeWhile_imp hc⟩

lemma run1 (class_ : Char → Bool) :
    TakesText (fun w => w ≠ [] ∧ ∀ c ∈ w, class_ c = true) (run1 class_) := fun cs w rest hcs =>
  ⟨w, eq_append_of_run1 hcs, Ensures.run1 class_ cs w rest hcs⟩

/-- The text that is accepted is the one that is taken. -/
lemma eq_append_of_accepted (hp : TakesText P p) {cs w rest : List Char}
    (h : accepted p cs = some (w, rest)) : cs = w ++ rest ∧ P w := by
  obtain ⟨⟨a, rest'⟩, ha, heq⟩ := Option.map_eq_some_iff.1 h
  obtain ⟨rfl, rfl⟩ := Prod.mk.inj heq
  obtain ⟨v, rfl, hv⟩ := hp cs a _ ha
  rw [List.length_append, Nat.add_sub_cancel, List.take_left]
  exact ⟨rfl, hv⟩

end TakesText

/-! ## Parsers that respect relations -/

/-- On texts that are related by `R`, both parsers apply or neither does.  If they do, their values
are related by `V` and what they leave is related by `S`. -/
def Likens (R S : List Char → List Char → Prop) (V : α → β → Prop) (p : Parser α) (q : Parser β) :
    Prop :=
  ∀ ⦃cs cs'⦄, R cs cs' → Option.Rel (fun x y => V x.1 y.1 ∧ S x.2 y.2) (p cs) (q cs')

namespace Likens

variable {R S T : List Char → List Char → Prop} {V : α → β → Prop} {W : γ → δ → Prop}
  {p : Parser α} {q : Parser β}

/-- What the first parser gives, the second one gives as well. -/
lemma exists_some (h : Likens R S V p q) {cs cs' rest : List Char} {a : α} (hR : R cs cs')
    (hp : p cs = some (a, rest)) : ∃ b rest', q cs' = some (b, rest') ∧ V a b ∧ S rest rest' := by
  have hrel := h hR
  rw [hp] at hrel
  cases hq : q cs' with
  | none => rw [hq] at hrel; cases hrel
  | some r =>
    rw [hq] at hrel
    cases hrel with
    | some hr => exact ⟨r.1, r.2, rfl, hr.1, hr.2⟩

/-- Where the first parser does not apply, the second one does not either. -/
lemma eq_none (h : Likens R S V p q) {cs cs' : List Char} (hR : R cs cs') (hp : p cs = none) :
    q cs' = none := by
  have hrel := h hR
  rw [hp] at hrel
  cases hq : q cs' with
  | none => rfl
  | some r => rw [hq] at hrel; cases hrel

/-- Both parsers apply, or neither does. -/
lemma isSome_eq (h : Likens R S V p q) {cs cs' : List Char} (hR : R cs cs') :
    (p cs).isSome = (q cs').isSome := by
  cases hp : p cs with
  | none =>
    rw [h.eq_none hR hp]
    rfl
  | some r =>
    obtain ⟨b, rest', hq, -⟩ := h.exists_some hR hp
    rw [hq]
    rfl

lemma pure {a : α} {b : β} (h : V a b) : Likens R R V (pure a) (pure b) :=
  fun _ _ hR => .some ⟨h, hR⟩

lemma failure : Likens R S V (failure : Parser α) (failure : Parser β) :=
  fun _ _ _ => .none

/-- Less may be said of what is given and left, and of fewer texts. -/
lemma imp {R' S' : List Char → List Char → Prop} {V' : α → β → Prop} (h : Likens R S V p q)
    (hR : ∀ cs cs', R' cs cs' → R cs cs') (hV : ∀ a b, V a b → V' a b)
    (hS : ∀ cs cs', S cs cs' → S' cs cs') : Likens R' S' V' p q := by
  intro cs cs' h'
  cases hp : p cs with
  | none =>
    rw [h.eq_none (hR cs cs' h') hp]
    exact .none
  | some r =>
    obtain ⟨b, rest', hq, hVb, hSr⟩ := h.exists_some (hR cs cs' h') hp
    rw [hq]
    exact .some ⟨hV _ _ hVb, hS _ _ hSr⟩

/-- Sequences of parsers that are alike are alike. -/
lemma bind {f : α → Parser γ} {g : β → Parser δ} (h : Likens R S V p q)
    (hf : ∀ a b, V a b → Likens S T W (f a) (g b)) : Likens R T W (p >>= f) (q >>= g) := by
  intro cs cs' hR
  cases hp : p cs with
  | none =>
    rw [bind_of_eq_none hp, bind_of_eq_none (h.eq_none hR hp)]
    exact .none
  | some r =>
    obtain ⟨b, rest', hq, hV, hS⟩ := h.exists_some hR hp
    rw [bind_of_eq_some hp, bind_of_eq_some hq]
    exact hf r.1 b hV hS

lemma andThen {q : Parser α} {f : α → Parser γ} {g : α → Parser δ} (h : Likens R S Eq p q)
    (hf : ∀ a, Likens S T W (f a) (g a)) : Likens R T W (p >>= f) (q >>= g) :=
  h.bind fun a _ hab => hab ▸ hf a

/-- Values that are changed are related as what they become. -/
lemma map {f : α → γ} {g : β → δ} (h : Likens R S V p q) (hf : ∀ a b, V a b → W (f a) (g b)) :
    Likens R S W (f <$> p) (g <$> q) := by
  intro cs cs' hR
  cases hp : p cs with
  | none =>
    rw [map_of_eq_none hp, map_of_eq_none (h.eq_none hR hp)]
    exact .none
  | some r =>
    obtain ⟨b, rest', hq, hV, hS⟩ := h.exists_some hR hp
    rw [map_of_eq_some hp, map_of_eq_some hq]
    exact .some ⟨hf r.1 b hV, hS⟩

/-- Alternatives are alike if the first ones are and the second ones are. -/
lemma orElse {p' : Parser α} {q' : Parser β} (h : Likens R S V p q) (h' : Likens R S V p' q') :
    Likens R S V (p <|> p') (q <|> q') := by
  intro cs cs' hR
  cases hp : p cs with
  | none =>
    rw [orElse_of_eq_none hp, orElse_of_eq_none (h.eq_none hR hp)]
    exact h' hR
  | some r =>
    obtain ⟨b, rest', hq, hV, hS⟩ := h.exists_some hR hp
    rw [orElse_of_eq_some hp, orElse_of_eq_some hq]
    exact .some ⟨hV, hS⟩

/-- What is optional is read from both texts or from none. -/
lemma optional? {q : Parser α} (h : Likens R R Eq p q) :
    Likens R R Eq (optional? p) (optional? q) := by
  intro cs cs' hR
  cases hp : p cs with
  | none =>
    rw [optional?_of_eq_none hp, optional?_of_eq_none (h.eq_none hR hp)]
    exact .some ⟨rfl, hR⟩
  | some r =>
    obtain ⟨b, rest', hq, rfl, hS⟩ := h.exists_some hR hp
    rw [optional?_of_eq_some hp, optional?_of_eq_some hq]
    exact .some ⟨rfl, hS⟩

/-- Repetitions read as many values from both texts. -/
lemma many {q : Parser α} (h : Likens R R Eq p q) (hp : Takes 1 p) (hq : Takes 1 q) :
    Likens R R Eq (many p) (many q) := by
  intro cs cs' hR
  have hgo : (Parser.many.go p cs).1 = (Parser.many.go q cs').1 ∧
      R (Parser.many.go p cs).2 (Parser.many.go q cs').2 := by
    fun_induction Parser.many.go p cs generalizing cs' with
    | case1 cs hnone =>
      rw [Parser.many.go, h.eq_none hR hnone]
      exact ⟨rfl, hR⟩
    | case2 cs a rest ha hlt ih =>
      obtain ⟨b, rest', hb, rfl, hS⟩ := h.exists_some hR ha
      obtain ⟨hvalues, hrest⟩ := ih hS
      rw [Parser.many.go.eq_def q cs', hb]
      simp only [if_pos (Nat.lt_of_succ_le (hq cs' a rest' hb))]
      exact ⟨congrArg _ hvalues, hrest⟩
    | case3 cs a rest ha hle => exact absurd (Nat.lt_of_succ_le (hp cs a rest ha)) hle
  exact .some hgo

/-- Values with separators are read from both texts in the same number. -/
lemma sepBy {separator separator' : Parser Unit} {q : Parser α}
    (hseparator : Likens R R Eq separator separator') (hp : Likens R R Eq p q)
    (htakes : Takes 1 separator) (htakes' : Takes 1 separator') (hzero : Takes 0 p)
    (hzero' : Takes 0 q) : Likens R R Eq (sepBy separator p) (sepBy separator' q) := by
  refine hp.optional?.andThen fun a => ?_
  cases a with
  | none => exact pure rfl
  | some a =>
    refine andThen (many (hseparator.andThen fun _ => hp) ?_ ?_) fun as => pure rfl
    · exact htakes.bind_left fun _ => hzero
    · exact htakes'.bind_left fun _ => hzero'

lemma padded {q : Parser α} (h : Likens R R Eq p q) (hlayout : Likens R R Eq layout layout) :
    Likens R R Eq (padded p) (padded q) :=
  hlayout.andThen fun _ => h.andThen fun _ => hlayout.andThen fun _ => pure rfl

/-- Both texts are accepted as a whole, or neither is. -/
lemma parseWhole? (h : Likens R S V p q) (hnil : ∀ cs cs', S cs cs' → (cs = [] ↔ cs' = []))
    {cs cs' : List Char} (hR : R cs cs') :
    Option.Rel V (Parser.parseWhole? p cs) (Parser.parseWhole? q cs') := by
  unfold Parser.parseWhole? Parser.parse
  cases hp : p cs with
  | none =>
    have hq : q cs' = none := h.eq_none hR hp
    rw [StateT.run, StateT.run, hp, hq]
    exact .none
  | some r =>
    obtain ⟨b, rest', hq, hV, hS⟩ := h.exists_some hR hp
    obtain ⟨a, rest⟩ := r
    rw [StateT.run, StateT.run, hp, hq]
    cases rest with
    | nil =>
      obtain rfl := (hnil _ _ hS).1 rfl
      exact .some hV
    | cons c rest =>
      cases rest' with
      | nil => cases (hnil _ _ hS).2 rfl
      | cons c' rest' => exact .none

/-- A text of which something is left is not accepted as a whole. -/
lemma parseWhole?_eq_none (h : Likens R S V p q) (hne : ∀ cs cs', S cs cs' → cs ≠ [])
    {cs cs' : List Char} (hR : R cs cs') : Parser.parseWhole? p cs = none := by
  unfold Parser.parseWhole? Parser.parse
  cases hp : p cs with
  | none => rw [StateT.run, hp]
  | some r =>
    obtain ⟨b, rest', -, -, hS⟩ := h.exists_some hR hp
    obtain ⟨a, rest⟩ := r
    rw [StateT.run, hp]
    cases rest with
    | nil => exact absurd rfl (hne _ _ hS)
    | cons c rest => rfl

end Likens

/-! ## Texts that are the same

A parser that is called with a bound on how deep it may go is not stopped by the bound if the bound
is above the length of the text.  Seen as a relation, such a text is only related to itself, and
each character that is taken lowers what is asked of the bound. -/

/-- The texts are the same, with fewer than `k` characters. -/
def Within (k : ℕ) (cs cs' : List Char) : Prop :=
  cs' = cs ∧ cs.length < k

/-- A parser does the same on the same text. -/
lemma Likens.refl (p : Parser α) : Likens Eq Eq Eq p p := by
  rintro cs _ rfl
  cases p cs with
  | none => exact .none
  | some r => exact .some ⟨rfl, rfl⟩

/-- A parser leaves fewer characters by as many as it takes. -/
lemma Takes.within {n : ℕ} {p : Parser α} (hp : Takes n p) (k : ℕ) :
    Likens (Within (k + n)) (Within k) Eq p p := by
  rintro _ cs ⟨rfl, hlt⟩
  cases h : p cs with
  | none => exact .none
  | some r =>
    have := hp cs r.1 r.2 h
    exact .some ⟨rfl, rfl, by omega⟩

/-- Parsers that are alike on a text and itself do the same on it. -/
lemma Likens.eq_of_within {k : ℕ} {p q : Parser α} (h : Likens (Within k) (Within k) Eq p q)
    {cs : List Char} (hlt : cs.length < k) : p cs = q cs := by
  cases hp : p cs with
  | none => exact (h.eq_none ⟨rfl, hlt⟩ hp).symm
  | some r =>
    obtain ⟨b, rest', hq, rfl, rfl, -⟩ := h.exists_some ⟨rfl, hlt⟩ hp
    exact hq.symm

/-! ## Characters and runs -/

/-- Texts that are related begin with the same character if one of them begins with a character of
the class, and they are still related behind it. -/
def Agree (class_ : Char → Bool) (R : List Char → List Char → Prop) : Prop :=
  ∀ ⦃cs cs'⦄, R cs cs' → Stops class_ cs ∧ Stops class_ cs' ∨
    ∃ c ds ds', class_ c = true ∧ cs = c :: ds ∧ cs' = c :: ds' ∧ R ds ds'

namespace Agree

variable {class_ part : Char → Bool} {R : List Char → List Char → Prop}

/-- Texts that agree in a class agree in its parts. -/
lemma mono (h : Agree class_ R) (hpart : ∀ c, part c = true → class_ c = true) : Agree part R := by
  intro cs cs' hR
  rcases h hR with ⟨hs, hs'⟩ | ⟨c, ds, ds', hc, rfl, rfl, hds⟩
  · exact .inl ⟨hs.of_part hpart, hs'.of_part hpart⟩
  · by_cases hp : part c = true
    · exact .inr ⟨c, ds, ds', hp, rfl, rfl, hds⟩
    · exact .inl ⟨stops_cons (by simpa using hp), stops_cons (by simpa using hp)⟩

/-- A character of the class is read from both texts. -/
lemma satisfy (h : Agree class_ R) : Likens R R Eq (satisfy class_) (satisfy class_) := by
  intro cs cs' hR
  rcases h hR with ⟨hs, hs'⟩ | ⟨c, ds, ds', hc, rfl, rfl, hds⟩
  · rw [satisfy_of_stops hs, satisfy_of_stops hs']
    exact .none
  · rw [satisfy_cons hc, satisfy_cons hc]
    exact .some ⟨rfl, hds⟩

lemma char {c : Char} (h : Agree class_ R) (hc : class_ c = true) :
    Likens R R Eq (char c) (char c) :=
  Likens.map (mono h fun d hd => by rwa [beq_iff_eq.1 hd]).satisfy fun _ _ _ => rfl

/-- A given word is read from both texts. -/
lemma literal {w : List Char} (h : Agree class_ R) (hw : w.all class_ = true) :
    Likens R R Eq (literal w) (literal w) := by
  induction w with
  | nil => exact .pure rfl
  | cons c w ih =>
    rw [List.all_cons, Bool.and_eq_true] at hw
    exact (h.char hw.1).andThen fun _ => ih hw.2

/-- A run of the class is read from both texts. -/
lemma takeWhile (h : Agree class_ R) {cs cs' : List Char} (hR : R cs cs') :
    cs.takeWhile class_ = cs'.takeWhile class_ ∧
      R (cs.dropWhile class_) (cs'.dropWhile class_) := by
  induction cs generalizing cs' with
  | nil =>
    rcases h hR with ⟨-, hs'⟩ | ⟨c, ds, ds', -, hnil, -⟩
    · rw [takeWhile_of_stops hs', dropWhile_of_stops hs']
      exact ⟨rfl, hR⟩
    · cases hnil
  | cons d cs ih =>
    rcases h hR with ⟨hs, hs'⟩ | ⟨c, ds, ds', hc, hcons, rfl, hds⟩
    · rw [takeWhile_of_stops hs, dropWhile_of_stops hs, takeWhile_of_stops hs',
        dropWhile_of_stops hs']
      exact ⟨rfl, hR⟩
    · cases hcons
      rw [List.takeWhile_cons_of_pos hc, List.takeWhile_cons_of_pos hc,
        List.dropWhile_cons_of_pos hc, List.dropWhile_cons_of_pos hc]
      obtain ⟨htake, hdrop⟩ := ih hds
      exact ⟨congrArg _ htake, hdrop⟩

lemma run (h : Agree class_ R) : Likens R R Eq (run class_) (run class_) :=
  fun _ _ hR => .some (h.takeWhile hR)

/-- A run of at least one character of the class is read from both texts. -/
lemma run1 (h : Agree class_ R) : Likens R R Eq (run1 class_) (run1 class_) := by
  intro cs cs' hR
  obtain ⟨htake, hdrop⟩ := h.takeWhile hR
  rw [Parser.run1, Parser.run1, htake]
  split
  · exact .none
  · exact .some ⟨rfl, hdrop⟩

lemma layout (h : Agree class_ R) (hlayout : ∀ c, isLayout c = true → class_ c = true) :
    Likens R R Eq layout layout :=
  Likens.map (h.mono hlayout).run fun _ _ _ => rfl

lemma layout1 (h : Agree class_ R) (hlayout : ∀ c, isLayout c = true → class_ c = true) :
    Likens R R Eq layout1 layout1 :=
  Likens.map (h.mono hlayout).run1 fun _ _ _ => rfl

/-- A sign is read from both texts. -/
lemma sign (h : Agree class_ R) (hplus : class_ '+' = true) (hminus : class_ '-' = true) :
    Likens R R Eq sign sign := by
  have hsign : Agree (fun c => c == '+' || c == '-') R := h.mono fun c hc => by
    rw [Bool.or_eq_true, beq_iff_eq, beq_iff_eq] at hc
    rcases hc with rfl | rfl
    · exact hplus
    · exact hminus
  exact hsign.satisfy.optional?.andThen fun s => .pure rfl

/-- A number is read from both texts. -/
lemma word (h : Agree class_ R) (hdigit : ∀ c, c.isDigit = true → class_ c = true)
    (hplus : class_ '+' = true) (hminus : class_ '-' = true) : Likens R R Eq word word := by
  refine (h.sign hplus hminus).andThen fun neg => ?_
  refine (h.mono hdigit).run1.andThen fun ds => ?_
  dsimp only
  generalize word? _ = w
  cases w with
  | none => exact .failure
  | some w => exact .pure rfl

end Agree

/-! ## Texts with the same beginning -/

/-- The texts begin in the same way, and then one goes on with `u` and the other one with `v`. -/
def Before (u v cs cs' : List Char) : Prop :=
  ∃ w, cs = w ++ u ∧ cs' = w ++ v

/-- Texts agree in their common beginning, in characters that do not follow after it. -/
lemma agree_before {class_ : Char → Bool} {u v : List Char} (hu : Stops class_ u)
    (hv : Stops class_ v) : Agree class_ (Before u v) := by
  rintro cs cs' ⟨w, rfl, rfl⟩
  cases w with
  | nil => exact .inl ⟨hu, hv⟩
  | cons c w =>
    by_cases hc : class_ c = true
    · exact .inr ⟨c, w ++ u, w ++ v, hc, rfl, rfl, w, rfl, rfl⟩
    · exact .inl ⟨stops_cons (by simpa using hc), stops_cons (by simpa using hc)⟩

/-- The text that is accepted belongs to the common beginning. -/
lemma Likens.accepted {u v : List Char} {p : Parser α} {q : Parser β} {V : α → β → Prop}
    (h : Likens (Before u v) (Before u v) V p q) :
    Likens (Before u v) (Before u v) Eq (accepted p) (accepted q) := by
  rintro _ _ ⟨w, rfl, rfl⟩
  cases hp : p (w ++ u) with
  | none =>
    rw [Parser.accepted, Parser.accepted, hp, h.eq_none ⟨w, rfl, rfl⟩ hp]
    exact .none
  | some r =>
    obtain ⟨a, rest⟩ := r
    obtain ⟨b, rest', hq, -, x, rfl, rfl⟩ := h.exists_some ⟨w, rfl, rfl⟩ hp
    have htake : ∀ t : List Char, (w ++ t).take ((w ++ t).length - (x ++ t).length) =
        w.take (w.length - x.length) := by
      intro t
      rw [List.length_append, List.length_append, Nat.add_sub_add_right,
        List.take_append_of_le_length (Nat.sub_le ..)]
    rw [Parser.accepted, Parser.accepted, hp, hq]
    refine .some ⟨?_, x, rfl, rfl⟩
    show List.take _ _ = List.take _ _
    rw [htake, htake]

end LinearInterchange.Text.Parser
