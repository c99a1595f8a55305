import LinearInterchange.Proofs.ExchangeLine
import Mathlib.Data.List.DropRight

/-!
# Words and titles

The names of variables are words, the names of instances are titles.  Readers get them in two ways:
by trimming and cutting a line at white space, and by parsers that only accept characters of a
class.  This file says what comes out of either.
-/

namespace LinearInterchange

open Text

/-- The text is one word: it is not empty and has no white space. -/
structure IsWord (cs : List Char) : Prop where
  ne_nil : cs ≠ []
  solid : Exchange.IsSolid cs

/-- The text can stand behind a keyword: it is not empty, has no white space at its ends, and is a
single line. -/
structure IsTitle (cs : List Char) : Prop where
  ne_nil : cs ≠ []
  trimmed : trim cs = cs
  no_feed : '\n' ∉ cs

variable {c : Char} {cs w : List Char}

lemma IsWord.ofList (h : IsWord cs) : IsWord (String.ofList cs).toList := by
  rwa [String.toList_ofList]

lemma IsTitle.ofList (h : IsTitle cs) : IsTitle (String.ofList cs).toList := by
  rwa [String.toList_ofList]

/-! ## Trimming -/

lemma trimRight_eq_rdropWhile (cs : List Char) : trimRight cs = cs.rdropWhile isBlank :=
  rfl

lemma mem_of_mem_trim (h : c ∈ trim cs) : c ∈ cs :=
  (List.dropWhile_suffix _).subset ((List.rdropWhile_prefix _ _).subset h)

/-- What is trimmed has no white space at its ends. -/
lemma trim_trim (cs : List Char) : trim (trim cs) = trim cs := by
  have hleft : trimLeft (trim cs) = trim cs := by
    -- the trimmed text is empty, or it begins as the text without the white space in front does
    obtain ⟨rest, hrest⟩ := List.rdropWhile_prefix isBlank (trimLeft cs)
    rw [← trimRight_eq_rdropWhile, ← trim] at hrest
    have hhead := List.head?_dropWhile_not isBlank cs
    rw [← trimLeft, ← hrest] at hhead
    cases ht : trim cs with
    | nil => rfl
    | cons c t =>
      rw [ht] at hhead
      exact List.dropWhile_cons_of_neg (by simpa using hhead)
  rw [trim, hleft, trim, trimRight_eq_rdropWhile, trimRight_eq_rdropWhile,
    List.rdropWhile_idempotent]

/-- A text without white space is trimmed. -/
lemma trim_of_isSolid (h : Exchange.IsSolid cs) : trim cs = cs := by
  have hleft : trimLeft cs = cs := by
    cases cs with
    | nil => rfl
    | cons c cs => exact List.dropWhile_cons_of_neg (by simp [h c List.mem_cons_self])
  have hright : trimRight (cs ++ []) = cs :=
    trimRight_append (List.forall_mem_nil _) h.stops_reverse
  rwa [List.append_nil, ← hleft, ← trim, hleft] at hright

/-- A text with a character other than white space does not vanish when it is trimmed. -/
lemma trim_ne_nil (hc : c ∈ cs) (hblank : isBlank c = false) : trim cs ≠ [] := by
  have hleft : c ∈ trimLeft cs := by
    rw [← List.takeWhile_append_dropWhile (p := isBlank) (l := cs), List.mem_append] at hc
    rcases hc with hc | hc
    · have := List.mem_takeWhile_imp hc
      simp [hblank] at this
    · exact hc
  intro hnil
  rw [trim, trimRight_eq_rdropWhile, List.rdropWhile_eq_nil_iff] at hnil
  have := hnil c hleft
  simp [hblank] at this

/-- A text is blank if nothing is left when it is trimmed. -/
lemma trim_eq_nil_iff : trim cs = [] ↔ cs.all isBlank = true := by
  constructor
  · intro hnil
    refine List.all_eq_true.2 fun c hc => ?_
    by_contra hblank
    exact trim_ne_nil hc (Bool.eq_false_iff.2 hblank) hnil
  · intro hall
    have hleft : trimLeft cs = [] := by
      rw [trimLeft, List.dropWhile_eq_nil_iff]
      exact List.all_eq_true.1 hall
    rw [trim, hleft]
    rfl

/-- White space at the end is left out. -/
lemma trim_append_blank (cs : List Char) (hc : isBlank c = true) :
    trim (cs ++ [c]) = trim cs := by
  rw [trim, trimLeft, List.dropWhile_append]
  split
  next hnil =>
    rw [List.isEmpty_iff] at hnil
    rw [trim, trimLeft, hnil, List.dropWhile_cons_of_pos hc]
    rfl
  next =>
    rw [trimRight_eq_rdropWhile, List.rdropWhile_concat_pos _ _ _ hc]
    rfl

lemma trim_cons_blank (cs : List Char) (hc : isBlank c = true) :
    trim (c :: cs) = trim cs := by
  rw [trim, trimLeft, List.dropWhile_cons_of_pos hc]
  rfl

/-- A word can stand behind a keyword. -/
lemma IsWord.isTitle (h : IsWord cs) : IsTitle cs where
  ne_nil := h.ne_nil
  trimmed := trim_of_isSolid h.solid
  no_feed := h.solid.no_feed

lemma isBlank_getLast_trimRight (h : trimRight cs ≠ []) :
    isBlank ((trimRight cs).getLast h) = false :=
  Bool.eq_false_iff.2 (List.rdropWhile_last_not isBlank cs h)

/-! ## Cutting at white space -/

/-- Between two cuts there is no character of the class. -/
lemma not_of_mem_splitOnP {p : Char → Bool} (hw : w ∈ cs.splitOnP p) (hc : c ∈ w) :
    p c = false := by
  induction cs generalizing w with
  | nil =>
    rw [List.splitOnP_nil, List.mem_singleton] at hw
    exact absurd (hw ▸ hc) List.not_mem_nil
  | cons d cs ih =>
    rw [List.splitOnP_cons_eq_if_modifyHead] at hw
    split at hw
    · rw [List.mem_cons] at hw
      rcases hw with rfl | hw
      · exact absurd hc List.not_mem_nil
      · exact ih hw hc
    case isFalse hd =>
      cases hs : cs.splitOnP p with
      | nil => exact absurd hs (List.splitOnP_ne_nil _ _)
      | cons v vs =>
        rw [hs] at hw ih
        rw [List.modifyHead_cons, List.mem_cons] at hw
        rcases hw with rfl | hw
        · rcases List.mem_cons.1 hc with rfl | hc
          · simpa using hd
          · exact ih List.mem_cons_self hc
        · exact ih (List.mem_cons_of_mem _ hw) hc

/-- Every character outside the class stands between two cuts. -/
lemma exists_mem_splitOnP {p : Char → Bool} (hc : c ∈ cs) (hp : p c = false) :
    ∃ w ∈ cs.splitOnP p, c ∈ w := by
  induction cs with
  | nil => exact absurd hc List.not_mem_nil
  | cons d cs ih =>
    rw [List.splitOnP_cons_eq_if_modifyHead]
    rcases List.mem_cons.1 hc with rfl | hc
    · rw [if_neg (by simp [hp])]
      cases hs : cs.splitOnP p with
      | nil => exact absurd hs (List.splitOnP_ne_nil _ _)
      | cons v vs => exact ⟨c :: v, by simp, List.mem_cons_self⟩
    · obtain ⟨w, hw, hcw⟩ := ih hc
      split
      · exact ⟨w, List.mem_cons_of_mem _ hw, hcw⟩
      · cases hs : cs.splitOnP p with
        | nil => exact absurd hs (List.splitOnP_ne_nil _ _)
        | cons v vs =>
          rw [hs, List.mem_cons] at hw
          rcases hw with rfl | hw
          · exact ⟨d :: w, by simp, List.mem_cons_of_mem _ hcw⟩
          · exact ⟨w, by simp [hw], hcw⟩

lemma isWord_of_mem_words (h : w ∈ words cs) : IsWord w := by
  obtain ⟨hmem, hne⟩ := List.mem_filter.1 h
  exact ⟨by simpa using hne, fun c hc => not_of_mem_splitOnP hmem hc⟩

lemma words_ne_nil (hc : c ∈ cs) (hblank : isBlank c = false) : words cs ≠ [] := by
  obtain ⟨w, hw, hcw⟩ := exists_mem_splitOnP hc hblank
  have hmem : w ∈ words cs := List.mem_filter.2 ⟨hw, by simpa using List.ne_nil_of_mem hcw⟩
  exact List.ne_nil_of_mem hmem

/-! ## What parsers accept -/

/-- Letters are code points between two bounds or two others. -/
lemma toNat_of_isAlpha (h : c.isAlpha = true) :
    65 ≤ c.toNat ∧ c.toNat ≤ 90 ∨ 97 ≤ c.toNat ∧ c.toNat ≤ 122 := by
  have hletter : (decide (65 ≤ c.val ∧ c.val ≤ 90) ||
      decide (97 ≤ c.val) && decide (c.val ≤ 122)) = true := h
  simp only [Bool.or_eq_true, Bool.and_eq_true, decide_eq_true_eq,
    UInt32.le_iff_toNat_le] at hletter
  exact hletter

lemma isBlank_of_isAlpha (h : c.isAlpha = true) : isBlank c = false := by
  have hcode := toNat_of_isAlpha h
  simp only [isBlank, blankRanges, List.any_cons, List.any_nil, Bool.or_false,
    Bool.or_eq_false_iff, Bool.and_eq_false_iff, decide_eq_false_iff_not]
  omega

namespace Text.Parser

variable {α β : Type} {P Q : α → Prop} {R : β → Prop} {p q : Parser α}

/-- A value of the whole text leaves nothing of it. -/
lemma eq_some_of_parseWhole? {a : α} (h : parseWhole? p cs = some a) : p cs = some (a, []) := by
  unfold parseWhole? parse at h
  split at h
  next b hb =>
    obtain rfl := Option.some.inj h
    exact hb
  next => cases h

lemma bind_eq_some {f : α → Parser β} {b : β} {rest : List Char}
    (h : (p >>= f) cs = some (b, rest)) :
    ∃ a rest₁, p cs = some (a, rest₁) ∧ f a rest₁ = some (b, rest) := by
  obtain ⟨⟨a, rest₁⟩, ha, hb⟩ := Option.bind_eq_some_iff.1 h
  exact ⟨a, rest₁, ha, hb⟩

lemma map_eq_some {g : α → β} {b : β} {rest : List Char} (h : (g <$> p) cs = some (b, rest)) :
    ∃ a, p cs = some (a, rest) ∧ g a = b := by
  obtain ⟨⟨a, rest₁⟩, ha, hb⟩ := Option.bind_eq_some_iff.1 h
  cases hb
  exact ⟨a, ha, rfl⟩

/-- What one of two alternatives gives comes from the first or from the second one. -/
lemma orElse_eq_some {a : α} {rest : List Char} (h : (p <|> q) cs = some (a, rest)) :
    p cs = some (a, rest) ∨ q cs = some (a, rest) := by
  cases hp : p cs with
  | some r =>
    have heq : (p <|> q) cs = some (r.1, r.2) := orElse_of_eq_some hp
    exact .inl (heq.symm.trans h)
  | none => exact .inr ((orElse_of_eq_none hp).symm.trans h)

lemma eq_append_of_run1 {class_ : Char → Bool} {w rest : List Char}
    (h : run1 class_ cs = some (w, rest)) : cs = w ++ rest := by
  obtain ⟨-, heq⟩ := Option.ite_none_left_eq_some.1 h
  obtain ⟨rfl, rfl⟩ := Prod.mk.inj (Option.some.inj heq)
  exact List.takeWhile_append_dropWhile.symm

/-- Every value that the parser gives has the property. -/
def Ensures (Q : α → Prop) (p : Parser α) : Prop :=
  ∀ cs a rest, p cs = some (a, rest) → Q a

namespace Ensures

lemma trivial (p : Parser α) : Ensures (fun _ => True) p :=
  fun _ _ _ _ => True.intro

lemma pure {a : α} (h : Q a) : Ensures Q (pure a) := by
  intro cs b rest hb
  obtain ⟨rfl, -⟩ := Prod.mk.inj (Option.some.inj hb)
  exact h

/-- What the second of two parsers gives may depend on what the first one gave. -/
lemma bind {f : α → Parser β} (hp : Ensures Q p) (hf : ∀ a, Q a → Ensures R (f a)) :
    Ensures R (p >>= f) := by
  intro cs b rest hb
  obtain ⟨a, rest₁, ha, hb⟩ := bind_eq_some hb
  exact hf a (hp cs a rest₁ ha) rest₁ b rest hb

/-- What is read before a parser does not matter if the parser ensures the property anyway. -/
lemma after {f : α → Parser β} (hf : ∀ a, Ensures R (f a)) : Ensures R (p >>= f) :=
  bind (trivial p) fun a _ => hf a

lemma orElse (hp : Ensures Q p) (hq : Ensures Q q) : Ensures Q (p <|> q) := by
  intro cs a rest ha
  rcases orElse_eq_some ha with ha | ha
  · exact hp cs a rest ha
  · exact hq cs a rest ha

lemma parseWhole? {a : α} (hp : Ensures Q p) (h : parseWhole? p cs = some a) : Q a :=
  hp cs a [] (eq_some_of_parseWhole? h)

lemma run (class_ : Char → Bool) :
    Ensures (fun w => ∀ c ∈ w, class_ c = true) (run class_) := by
  intro cs w rest h
  obtain ⟨rfl, -⟩ := Prod.mk.inj (Option.some.inj h)
  exact fun c hc => List.mem_takeWhile_imp hc

/-- A run of at least one character is made of characters of its class. -/
lemma run1 (class_ : Char → Bool) :
    Ensures (fun w => w ≠ [] ∧ ∀ c ∈ w, class_ c = true) (run1 class_) := by
  intro cs w rest h
  unfold Parser.run1 at h
  split at h
  · cases h
  next hne =>
    obtain ⟨rfl, -⟩ := Prod.mk.inj (Option.some.inj h)
    exact ⟨by simpa using hne, fun c hc => List.mem_takeWhile_imp hc⟩

/-- What is made of a run of two classes without white space is made of a word. -/
lemma identifier {start part : Char → Bool} (hstart : ∀ c, start c = true → isBlank c = false)
    (hpart : ∀ c, part c = true → isBlank c = false) {f : List Char → α}
    (hf : ∀ w, IsWord w → Q (f w)) :
    Ensures Q (do return f ((← Parser.run1 start) ++ (← Parser.run part))) := by
  refine bind (run1 start) fun v hv => ?_
  refine bind (run part) fun w hw => pure (hf _ ?_)
  refine ⟨List.append_ne_nil_of_left_ne_nil hv.1 w, fun c hc => ?_⟩
  rcases List.mem_append.1 hc with hc | hc
  · exact hstart c (hv.2 c hc)
  · exact hpart c (hw c hc)

end Ensures

end Text.Parser

end LinearInterchange
